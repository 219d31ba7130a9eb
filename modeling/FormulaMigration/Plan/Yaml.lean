import FormulaMigration.Plan
import FormulaMigration.Yaml.Decoder
import FormulaMigration.Yaml.Reading

namespace FormulaMigration

namespace Plan

def yamlFields : List (YamlField Draft) :=
  [.of "expression_keys" (Yaml.list? Yaml.text?) (·.expressionKeys)
      fun a s => { s with expressionKeys := some a },
    .of "embedded_keys" (Yaml.list? Yaml.text?) (·.embeddedKeys)
      fun a s => { s with embeddedKeys := some a },
    .of "skip_converted" Yaml.truth? (·.skipConverted)
      fun a s => { s with skipConverted := some a },
    .of "version_key" Yaml.text? (·.versionKey) fun a s => { s with versionKey := some a },
    .of "script_version" Yaml.word? (·.scriptVersion)
      fun a s => { s with scriptVersion := some a }]

def ofYamlText? (t : Text) : Option Plan := do
  let s ← (← Yaml.ofText? t).fields? yamlFields .empty
  some (ofDraft s)

instance : YamlReader Plan :=
  ⟨ofYamlText?⟩

end Plan

end FormulaMigration
