/-!
# The phrases of scripts

Main definition: `Category`.
-/

namespace PackageExports.Script

/-- A kind of phrase. Of two readings of the same text that nothing else tells apart, the order decides. -/
inductive Category where
  | script
  | exportStatement
  | exportedNamespace
  | exportClause
  | exportedName
  | moduleName
  | declaration
  | importWord
  | importStatement
  | importClause
  | fromClause
  | importedNamespace
  | importedNames
  | importedName
  | importAttribute
  | statement
  | expressionStatement
  | variableDeclaration
  | lexicalDeclaration
  | declarator
  | block
  | elseClause
  | ifStatement
  | switchStatement
  | forStatement
  | forInStatement
  | forInHead
  | whileStatement
  | doStatement
  | tryStatement
  | withStatement
  | breakStatement
  | continueStatement
  | debuggerStatement
  | returnStatement
  | throwStatement
  | emptyStatement
  | labeledStatement
  | switchBody
  | switchCase
  | switchDefault
  | catchClause
  | finallyClause
  | parenthesized
  | expression
  | primary
  | yieldExpression
  | object
  | objectPattern
  | defaultedPattern
  | defaultedProperty
  | array
  | arrayPattern
  | qualifiedName
  | classExpression
  | classDeclaration
  | classHeritage
  | functionExpression
  | functionDeclaration
  | generatorExpression
  | generatorDeclaration
  | arrowFunction
  | signature
  | parameter
  | call
  | newExpression
  | awaitExpression
  | member
  | subscript
  | assignment
  | updatedTarget
  | updatingAssignment
  | initialValue
  | destructuring
  | spread
  | conditional
  | binary
  | unary
  | increment
  | sequence
  | string
  | template
  | substitution
  | regularExpression
  | metaProperty
  | arguments
  | decorator
  | decoratorMember
  | decoratorCall
  | classBody
  | parameters
  | staticBlock
  | pattern
  | restPattern
  | method
  | property
  | propertyPattern
  | propertyName
  | computedName
  | optionalChain
  | element
  | elementExpression
  | openingTag
  | namespacedName
  | closingTag
  | selfClosingTag
  | tagAttribute
  | attributeString
  | fieldDefinition
  | importIdentifier
  | nonNull
  | methodSignature
  | abstractMethodSignature
  | functionSignature
  | decoratorParenthesized
  | typeAssertion
  | asExpression
  | satisfiesExpression
  | instantiation
  | importRequireClause
  | extendsClause
  | extendedClass
  | implementsClause
  | ambientDeclaration
  | abstractClassDeclaration
  | moduleDeclaration
  | namespaceDeclaration
  | moduleBody
  | importAlias
  | qualifiedTypeName
  | interfaceDeclaration
  | extendsTypeClause
  | enumDeclaration
  | enumBody
  | enumAssignment
  | typeAliasDeclaration
  | accessModifier
  | overrideModifier
  | requiredParameter
  | optionalParameter
  | parameterName
  | omittingAscription
  | addingAscription
  | optingAscription
  | typeAscription
  | assertion
  | assertionAscription
  | typeExpression
  | tupleParameter
  | optionalTupleParameter
  | optionalType
  | restType
  | tupleMember
  | constructorType
  | primaryType
  | templateType
  | templateLiteralType
  | inferType
  | conditionalType
  | genericType
  | typePredicate
  | typePredicateAscription
  | queryMember
  | querySubscript
  | queryCall
  | queryInstantiation
  | importTypeMember
  | importTypeCall
  | typeQuery
  | keyQuery
  | lookupType
  | mappedTypeClause
  | literalType
  | signedNumber
  | existentialType
  | maybeType
  | parenthesizedType
  | predefinedType
  | typeArguments
  | objectType
  | callSignature
  | propertySignature
  | typeParameters
  | typeParameter
  | defaultType
  | typeConstraint
  | constructSignature
  | indexSignature
  | arrayType
  | tupleType
  | readonlyType
  | unionType
  | intersectionType
  | functionType
deriving DecidableEq

namespace Category

/-- Whether phrases of a category only serve to bring other kinds of phrases together. -/
def isHidden : Category → Bool
  | moduleName | declaration | fromClause | statement | forInHead | expression | primary | signature | parameter
  | updatedTarget | initialValue | destructuring | pattern | propertyName | importIdentifier | extendedClass
  | moduleBody | parameterName | typeExpression | tupleMember | primaryType => true
  | _ => false

end Category

end PackageExports.Script
