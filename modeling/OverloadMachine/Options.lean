import OverloadMachine.Negation

/-!
# Options

How a machine is set up.
-/

namespace OverloadMachine

/-- Settings of a machine. -/
structure Options where
  /-- Operand order of products that stand for negations. -/
  negationOrder : NegationOrder
  /-- Instructions that a run may execute; none for no limit. -/
  maxInstructions : Option UInt64
  /-- Whether a broken contract aborts the process. -/
  strictContracts : Bool
  /-- Whether functions are verified before they run. -/
  verify : Bool
  deriving DecidableEq, Repr

namespace Options

/-- Settings that are not given otherwise. -/
def standard : Options := ⟨.valueFirst, some 10000000, false, true⟩

instance : Inhabited Options := ⟨standard⟩

/-- Whether the settings make sense: a limit is positive. -/
def isValid (o : Options) : Bool := o.maxInstructions != some 0

/-- Message about settings that make no sense. -/
def invalidMessage : String :=
  "Invalid options: max_instructions must be positive or \"unlimited\""

/-- Listing of the settings. -/
def listing (o : Options) : String :=
  let limit := match o.maxInstructions with
    | some n => "Some(" ++ toString n.toNat ++ ")"
    | none => "None"
  "VmOptions \x7b negation_order: " ++ o.negationOrder.name
    ++ ", max_instructions: " ++ limit
    ++ ", strict_contracts: " ++ toString o.strictContracts
    ++ ", verify: " ++ toString o.verify ++ " \x7d"

end Options

end OverloadMachine
