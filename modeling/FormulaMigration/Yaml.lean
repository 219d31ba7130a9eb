import FormulaMigration.Text

namespace FormulaMigration

inductive Yaml
  | scalar (t : Text) (plain : Bool)
  | sequence (items : List Yaml)
  | mapping (entries : List (Yaml × Yaml))

def Yaml.nothing : Yaml := scalar [] true

/-- How values of a type are read out of YAML, by whatever reader. -/
class YamlReader (α : Type) where
  read? : Text → Option α

end FormulaMigration
