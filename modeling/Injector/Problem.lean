/-
# Injector.Problem -- what can be wrong with a declaration

Each rule that a program can break is a constructor, with what its message has to
name.  `message` is the only place where the wording is.  Two rules take two
messages, one at each declaration involved: a second scope (`scopeRefused` at the
class that adds it, `scopeTaken` at the class that has one), and a second binding
(`keyRefused` at the second member, `keyTaken` at the first).
-/
import Injector.Key

namespace Injector

set_option autoImplicit false

inductive Problem where
  -- annotations
  | severalScopes (scopes : List AnnotationUse)
  | severalQualifiers (qualifiers : List AnnotationUse)
  | innerQualifier (qualifier : AnnotationUse)
  | injectedTwice
  | severalConstructors
  -- members and scopes of a component
  | scopeRefused (scope : AnnotationUse)
  | scopeTaken (scope : AnnotationUse)
  | scopeTakenByParent (scope : AnnotationUse)
  | providesPrivate
  | providesNothing
  | providesAbstract
  | scopeInUnscoped (scope : AnnotationUse)
  | scopeMismatch (scope owner : AnnotationUse)
  | contributesNoPair
  | keyRefused (key : Key)
  | keyTaken
  -- parents
  | ownParent (component : DeclName)
  | noSuchComponent (ty : Ty)
  | inaccessible
  | parentFaulty (component : DeclName)
  -- the component itself
  | componentConcrete (component : DeclName)
  | componentPrivate (component : DeclName)
  | componentFaulty (component : DeclName)
  | parentNotField (param : String)
  | parentPrivate (param : String)
  -- text from elsewhere
  | note (text : String)
  deriving DecidableEq, Inhabited

namespace Problem

def message : Problem → String
  | severalScopes scopes => "Cannot apply multiple scopes: " ++ AnnotationUse.listText scopes
  | severalQualifiers qualifiers =>
    "Cannot apply multiple qualifiers: " ++ AnnotationUse.listText qualifiers
  | innerQualifier q => "Qualifier: " ++ q.text ++ " can only be applied to the outer type"
  | injectedTwice => "Cannot annotate constructor with @Inject in an @Inject-annotated class"
  | severalConstructors => "Class cannot contain multiple @Inject-annotated constructors"
  | scopeRefused scope => "Cannot apply scope: " ++ scope.text
  | scopeTaken scope => "as scope: " ++ scope.text ++ " is already applied"
  | scopeTakenByParent scope => "as scope: " ++ scope.text ++ " is already applied to parent"
  | providesPrivate => "@Provides method must not be private"
  | providesNothing => "@Provides method must return a value"
  | providesAbstract => "@Provides method must have a concrete implementation"
  | scopeInUnscoped scope =>
    "@Provides with scope: " ++ scope.text ++ " cannot be provided in an unscoped component"
  | scopeMismatch scope owner =>
    "@Provides with scope: " ++ scope.text ++ " must match component scope: " ++ owner.text
  | contributesNoPair => "@IntoMap must have return type of type Pair"
  | keyRefused key => "Cannot provide: " ++ key.text
  | keyTaken => "as it is already provided"
  | ownParent component => "Cannot use component: " ++ component.shortText ++ " as its own parent"
  | noSuchComponent ty => "Cannot find component: " ++ ty.text
  | inaccessible => "@Provides method is not accessible"
  | parentFaulty component =>
    "Parent component: " ++ component.shortText ++ " has declaration errors"
  | componentConcrete component =>
    "@Component class: " ++ component.shortText ++ " must be abstract"
  | componentPrivate component =>
    "@Component class: " ++ component.shortText ++ " must not be private"
  | componentFaulty component =>
    "@Component class: " ++ component.shortText ++ " has declaration errors"
  | parentNotField param => "@Component parameter: " ++ param ++ " must be val"
  | parentPrivate param => "@Component parameter: " ++ param ++ " must not be private"
  | note text => text

end Problem

end Injector
