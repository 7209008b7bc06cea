import RegionGuard.Config.Basic

/-!
# Configuration by variables

Four variables of the environment change the default configuration.  They are
read in a fixed order, so of several bad ones the first is reported.
-/

namespace RegionGuard

/-- The variable for a strict policy. -/
abbrev strictVariable : String := "BCHECK_STRICT"

/-- The variable for the first address of the heap. -/
abbrev heapBaseVariable : String := "BCHECK_HEAP_BASE"

/-- The variable for the size of the heap. -/
abbrev heapSizeVariable : String := "BCHECK_HEAP_SIZE"

/-- The variable for the reserved zones. -/
abbrev reserveVariable : String := "BCHECK_RESERVE"

/-- Why a variable has no meaning. -/
inductive VariableError
  /-- The strict variable is not a truth value. -/
  | notBoolean (text : String)
  /-- The base of the heap is not a number. -/
  | heapBase (cause : WordError)
  /-- The size of the heap is not a number. -/
  | heapSize (cause : WordError)
  /-- One of the reserved zones is not a zone. -/
  | reserve (cause : ZoneError)
  deriving DecidableEq, Repr

/-- The wording of each cause. -/
def VariableError.message : VariableError → String
  | .notBoolean text => s!"in {strictVariable}: `{text}` is not a boolean"
  | .heapBase cause => s!"in {heapBaseVariable}: {cause.message}"
  | .heapSize cause => s!"in {heapSizeVariable}: {cause.message}"
  | .reserve cause => s!"in {reserveVariable}: {cause.message}"

/-- The words for true. -/
def trueWords : List String := ["1", "true", "yes", "on"]

/-- The words for false, among them no word at all. -/
def falseWords : List String := ["", "0", "false", "no", "off"]

/-- Reads a truth value.  Blanks around it and the case of ASCII letters do not
matter. -/
def readFlag (source : List Char) : Except VariableError Bool :=
  let word := String.ofList ((Text.trim source).map Char.toLower)
  if word ∈ trueWords then .ok true
  else if word ∈ falseWords then .ok false
  else .error (.notBoolean word)

/-- Reads zones until the first one that is not one. -/
def readZones : List (List Char) → Except ZoneError (List Zone)
  | [] => .ok []
  | item :: items =>
    match readZone item with
    | .error cause => .error cause
    | .ok zone => (readZones items).map (zone :: ·)

/-- The items of a list that commas separate, without the blanks around them and
without the empty ones. -/
def listItems (source : List Char) : List (List Char) :=
  ((Text.fields (· == ',') source).map Text.trim).filter (!·.isEmpty)

namespace Config

/-- Applies the strict variable. -/
def readStrict (config : Config) : Option String → Except VariableError Config
  | none => .ok config
  | some value =>
    (readFlag value.toList).map fun strict =>
      { config with untracked := if strict then .forbid else .permit }

/-- Applies the variable for the base of the heap. -/
def readHeapBase (config : Config) : Option String → Except VariableError Config
  | none => .ok config
  | some value =>
    match readWord value.toList with
    | .error cause => .error (.heapBase cause)
    | .ok start => .ok { config with heap := ⟨start, config.heap.size⟩ }

/-- Applies the variable for the size of the heap. -/
def readHeapSize (config : Config) : Option String → Except VariableError Config
  | none => .ok config
  | some value =>
    match readWord value.toList with
    | .error cause => .error (.heapSize cause)
    | .ok size => .ok { config with heap := ⟨config.heap.start, size⟩ }

/-- Applies the variable for the reserved zones. -/
def readReserved (config : Config) : Option String → Except VariableError Config
  | none => .ok config
  | some value =>
    match readZones (listItems value.toList) with
    | .error cause => .error (.reserve cause)
    | .ok zones => .ok { config with reserved := config.reserved ++ zones }

/-- The default configuration with the variables applied that have a value. -/
def ofVariables (value? : String → Option String) : Except VariableError Config := do
  let config ← default.readStrict (value? strictVariable)
  let config ← config.readHeapBase (value? heapBaseVariable)
  let config ← config.readHeapSize (value? heapSizeVariable)
  config.readReserved (value? reserveVariable)

end Config

end RegionGuard
