import FormulaMigration.Text

namespace FormulaMigration

def functionTable : List (Text × Text) :=
  [("if", "iff"),
    ("signed", "signedValue"),
    ("advantage_level", "entity.traitLevel"),
    ("enc", "entity.currentEncumbrance"),
    ("has_trait", "entity.hasTrait"),
    ("random_height", "entity.randomHeightInInches"),
    ("random_weight", "entity.randomWeightInPounds"),
    ("skill_level", "entity.skillLevel"),
    ("trait_level", "entity.traitLevel"),
    ("weapon_damage", "entity.weaponDamage"),
    ("add_dice", "dice.add"),
    ("dice_count", "dice.count"),
    ("dice_modifier", "dice.modifier"),
    ("dice_multiplier", "dice.multiplier"),
    ("dice_sides", "dice.sides"),
    ("dice", "dice.from"),
    ("roll", "dice.roll"),
    ("subtract_dice", "dice.subtract"),
    ("abs", "Math.abs"),
    ("cbrt", "Math.cbrt"),
    ("ceil", "Math.ceil"),
    ("exp", "Math.exp"),
    ("exp2", "Math.exp2"),
    ("floor", "Math.floor"),
    ("log", "Math.log"),
    ("log10", "Math.log10"),
    ("log1p", "Math.log1p"),
    ("max", "Math.max"),
    ("min", "Math.min"),
    ("round", "Math.round"),
    ("sqrt", "Math.sqrt"),
    ("ssrt_to_yards", "measure.modifierToYards"),
    ("ssrt", "measure.modifier")].map fun row => (row.1.toList, row.2.toList)

def scriptCall? (function : Text) : Option Text :=
  functionTable.lookup function

def diceNamespace : Text := "dice.".toList

def diceFrom : Text := "dice.from".toList

def diceRoll : Text := "dice.roll".toList

def takesDiceLiterals (call : Text) : Bool :=
  diceNamespace.isPrefixOf call && call != diceFrom

def variableSigil : Char := '$'

end FormulaMigration
