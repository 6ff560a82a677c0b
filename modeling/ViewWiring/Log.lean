namespace ViewWiring

inductive Level
  | warn | debug | trace
  deriving DecidableEq, Repr

def Level.name : Level → String
  | warn => "WARN"
  | debug => "DEBUG"
  | trace => "TRACE"

structure LogLine where
  level : Level
  text : String
  deriving DecidableEq, Repr

end ViewWiring
