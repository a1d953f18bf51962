import Mathlib.Data.List.Infix
import Mathlib.Logic.Function.Basic

namespace Fractonica.Lib

-- The files of a directory by their names.
abbrev Directory (Name : Type) : Type := Name → Option (List UInt8)

inductive FileEffect (Name : Type) where
  | write (name : Name) (content : List UInt8)
  | remove (name : Name)

variable {Name : Type} [DecidableEq Name]

def FileEffect.apply (dir : Directory Name) : FileEffect Name → Directory Name
  | .write name content => Function.update dir name (some content)
  | .remove name => Function.update dir name none

def Directory.after (dir : Directory Name) (effects : List (FileEffect Name)) : Directory Name :=
  effects.foldl FileEffect.apply dir

-- What the machine may leave of effects that were not synced: of each of them
-- all, nothing, or a file that ends somewhere in the middle.
inductive Survives : List (FileEffect Name) → Directory Name → Directory Name → Prop
  | nil : Survives [] dir dir
  | kept : Survives rest (effect.apply dir) dir' → Survives (effect :: rest) dir dir'
  | lost : Survives rest dir dir' → Survives (effect :: rest) dir dir'
  | torn : part <+: content → Survives rest (Function.update dir name (some part)) dir' →
      Survives (.write name content :: rest) dir dir'

end Fractonica.Lib
