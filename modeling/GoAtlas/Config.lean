/-!
# Configuration of an extraction

A configuration says how deep structs written in place are expanded, whether doc comments are kept,
whether embedded interfaces count for method sets, and whether cycles are looked for. A usable
configuration expands at least one level; `Settings` carries the proof.
-/

namespace GoAtlas

/-- The choices for an extraction. -/
structure Config where
  maxInlineDepth : Nat := 32
  keepDocComments : Bool := true
  resolveInterfaceEmbeds : Bool := true
  detectCycles : Bool := true
  deriving DecidableEq, Repr, Inhabited

/-- What can be wrong with a configuration. -/
inductive ConfigError where
  /-- The depth limit is zero. -/
  | zeroDepth
  deriving DecidableEq, Repr

namespace ConfigError

/-- The wording of a fault. -/
def reason : ConfigError → String
  | zeroDepth => "max_inline_depth must be > 0"

/-- The message for a configuration that is refused. -/
def message (e : ConfigError) : String :=
  "Invalid configuration: " ++ e.reason

end ConfigError

namespace Config

/-- Everything on, with a low depth limit. -/
def strict : Config :=
  { maxInlineDepth := 8 }

/-- The structure only: no doc comments, no search for cycles. -/
def minimal : Config :=
  { keepDocComments := false, detectCycles := false }

/-- The fault of a configuration, if it has one. -/
def fault? (c : Config) : Option ConfigError :=
  if c.maxInlineDepth = 0 then some .zeroDepth else none

end Config

/-- A configuration without fault. -/
structure Settings extends Config where
  depth_pos : 0 < maxInlineDepth
  deriving DecidableEq

namespace Settings

/-- Accepts a configuration that has no fault. -/
def ofConfig (c : Config) : Except ConfigError Settings :=
  if h : c.maxInlineDepth = 0 then .error .zeroDepth
  else .ok { c with depth_pos := Nat.pos_of_ne_zero h }

instance : Inhabited Settings := ⟨{ depth_pos := by decide }⟩

/-- A configuration is refused exactly when it has a fault. -/
theorem ofConfig_eq_error_iff (c : Config) (e : ConfigError) :
    ofConfig c = .error e ↔ c.fault? = some e := by
  unfold ofConfig Config.fault?
  split <;> simp_all

end Settings

end GoAtlas
