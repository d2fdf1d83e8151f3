/-!
# Scenario keys

A scenario belongs to a requirement and has a use-case id under it. Keys are ordered by requirement
and then by use case, both by code points, which is also the order of their UTF-8 bytes.
-/
namespace UseCaseFlow

structure ScenarioKey where
  req : String
  ucid : String
  deriving DecidableEq, Repr

def ScenarioKey.text (key : ScenarioKey) : String :=
  key.req ++ "/" ++ key.ucid

def ScenarioKey.order (a b : ScenarioKey) : Ordering :=
  (compare a.req b.req).then (compare a.ucid b.ucid)

end UseCaseFlow
