import FormulaMigration.Text

namespace FormulaMigration

abbrev Name := Text

abbrev Path := Text

inductive Step
  | here
  | up
  | into (name : Name)
deriving DecidableEq

namespace Path

def isAbsolute (p : Path) : Bool :=
  p.head? == some '/'

def join (p q : Path) : Path :=
  if isAbsolute q then q
  else if p.isEmpty || p.getLast? == some '/' then p ++ q
  else p ++ '/' :: q

def parts : Path → List Name
  | [] => [[]]
  | c :: rest =>
    if c = '/' then [] :: parts rest
    else
      match parts rest with
      | part :: more => (c :: part) :: more
      | [] => [[c]]

def stepOf (part : Name) : Step :=
  if part = [] ∨ part = ['.'] then .here else if part = ['.', '.'] then .up else .into part

def steps (p : Path) : List Step :=
  (parts p).map stepOf

def components (p : Path) : List Step :=
  let moves := (steps p).filter (· ≠ .here)
  if (parts p).head? = some ['.'] then .here :: moves else moves

def parentComponents (p : Path) : List Step :=
  (components p).dropLast

def hasFinalSlash (p : Path) : Bool :=
  p.getLast? == some '/'

def withoutFinalSlashes (p : Path) : Path :=
  (p.reverse.dropWhile (· = '/')).reverse

def fileName? (p : Path) : Option Name :=
  match (components p).getLast? with
  | some (.into name) => some name
  | _ => none

def namesLe : List Name → List Name → Bool
  | [], _ => true
  | _ :: _, [] => false
  | m :: s, n :: t => if m = n then namesLe s t else Text.le m n

def extensionOf? (name : Name) : Option Text :=
  let reversed := name.reverse
  let extension := (reversed.takeWhile (· ≠ '.')).reverse
  let before := (reversed.dropWhile (· ≠ '.')).drop 1
  if before.isEmpty then none else some extension

def extension? (p : Path) : Option Text := do
  extensionOf? (← fileName? p)

end Path

end FormulaMigration
