import GoAtlas.Config
import GoAtlas.Toml.Reader

/-!
# Configuration files

A configuration file is a TOML document. It may give any of the four choices; what it does not give
has its default, and other keys do not matter.
-/

namespace GoAtlas.Config

/-- A whole number that is not negative. -/
def natOf? : Toml.Value → Option Nat
  | .integer n => n.toNat?
  | _ => none

/-- A truth value. -/
def boolOf? : Toml.Value → Option Bool
  | .boolean b => some b
  | _ => none

/-- The choice under a key, or its default when the key is absent. -/
def choice? {α : Type} (document : Toml.Members) (key : String) (default : α)
    (decode : Toml.Value → Option α) : Option α :=
  match document.lookup key with
  | none => some default
  | some v => decode v

/-- The configuration that the text of a file gives, unless it is no TOML or a choice is not of its
kind. -/
def ofText? (text : String) : Option Config := do
  let document ← Toml.parse? text
  let base : Config := {}
  let maxInlineDepth ← choice? document "max_inline_depth" base.maxInlineDepth natOf?
  let keepDocComments ← choice? document "keep_doc_comments" base.keepDocComments boolOf?
  let resolveInterfaceEmbeds ←
    choice? document "resolve_interface_embeds" base.resolveInterfaceEmbeds boolOf?
  let detectCycles ← choice? document "detect_cycles" base.detectCycles boolOf?
  return { maxInlineDepth, keepDocComments, resolveInterfaceEmbeds, detectCycles }

end GoAtlas.Config
