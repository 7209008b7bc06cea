import RegionGuard.Checker.Handle
import RegionGuard.Proofs.Checker.Upkeep
import RegionGuard.Proofs.Table.Travel

/-!
# Pointers as plain addresses

A client can use the checker in two ways: through a handle, with pointers that are plain
addresses, or directly, with pointers that are tagged.  The plain ones have no room for
the tag, so one address stands for an invalid pointer, and address 0 for an allocation
that has failed.

That loses nothing.  A constant is read the same way in both, a move never ends at a
valid pointer to the reserved address, and the allocator never hands it out, because it
is not a multiple of the unit.  So the same calls, in any order and with any arguments,
return the same, fail the same, and leave the same checker behind.
-/

namespace RegionGuard

namespace Pointer

/-- The reserved address is not a multiple of the heap's unit. -/
theorem valid_ne_of_dvd {addr : Addr} (h : heapUnit ∣ addr.toNat) :
    valid addr ≠ valid invalidAddr := by
  intro heq
  rw [valid.inj heq] at h
  exact absurd h (by decide)

end Pointer

namespace Client

/-- An argument that is a pointer. -/
inductive Operand (Var : Type)
  /-- A constant. -/
  | const (addr : Addr)
  /-- What a variable holds. -/
  | var (x : Var)

/-- A call of the checker, or the assignment of a constant. -/
inductive Call (Var : Type)
  | assign (x : Var) (addr : Addr)
  | advance (x : Var) (base : Operand Var) (offset : Int32)
  | load (ptr : Operand Var) (offset : Int32) (access : Access)
  | store (ptr : Operand Var) (offset : Int32) (access : Access) (value : Int64)
  | allocate (x : Var) (size : UInt32)
  | allocateZeros (x : Var) (count size : UInt32)
  | free (ptr : Operand Var)
  | resize (x : Var) (ptr : Operand Var) (size : UInt32)
  | register (addr : Operand Var) (size : UInt32)
  | unregister (addr : Operand Var)

/-- What the calls work on, and what the variables hold. -/
structure Frame (State Value Var : Type) where
  /-- A handle or a checker. -/
  state : State
  /-- The variables. -/
  vars : Var → Value

variable {State Value Var α ε : Type}

/-- A call whose result goes to a variable, unless the call fails. -/
def assigns [DecidableEq Var] (vars : Var → Value) (x : Var) (outcome : Except ε Value × State) :
    Except ε (Option Int64) × Frame State Value Var :=
  match outcome with
  | (.ok value, state) => (.ok none, ⟨state, Function.update vars x value⟩)
  | (.error cause, state) => (.error cause, ⟨state, vars⟩)

/-- A call that changes no variable. -/
def keeps (vars : Var → Value) (shown : α → Option Int64) (outcome : Except ε α × State) :
    Except ε (Option Int64) × Frame State Value Var :=
  (outcome.1.map shown, ⟨outcome.2, vars⟩)

/-- The plain address of an argument. -/
def Operand.plain (vars : Var → Addr) : Operand Var → Addr
  | const addr => addr
  | var x => vars x

/-- The tagged pointer of an argument. -/
def Operand.tagged (vars : Var → Pointer) : Operand Var → Pointer
  | const addr => .ofAddr addr
  | var x => vars x

/-- The pointer to an allocation, which is null if there is no room. -/
def allocated (outcome : Except Violation (Option Addr) × Checker Heap) :
    Except Violation Pointer × Checker Heap :=
  (outcome.1.map fun addr => .valid (addr.getD 0), outcome.2)

namespace Call

variable [DecidableEq Var]

/-- The call through the handle, with plain addresses. -/
def plain (f : Frame Handle Addr Var) :
    Call Var → Except Abort (Option Int64) × Frame Handle Addr Var
  | assign x addr => assigns f.vars x (.ok addr, f.state)
  | advance x base offset => assigns f.vars x (f.state.advance (base.plain f.vars) offset)
  | load ptr offset access => keeps f.vars some (f.state.load (ptr.plain f.vars) offset access)
  | store ptr offset access value =>
    keeps f.vars (fun _ => none) (f.state.store (ptr.plain f.vars) offset access.width value)
  | allocate x size => assigns f.vars x (f.state.allocate size)
  | allocateZeros x count size => assigns f.vars x (f.state.allocateZeros count size)
  | free ptr => keeps f.vars (fun _ => none) (f.state.free (ptr.plain f.vars))
  | resize x ptr size => assigns f.vars x (f.state.resize (ptr.plain f.vars) size)
  | register addr size => keeps f.vars (fun _ => none) (f.state.register (addr.plain f.vars) size)
  | unregister addr => keeps f.vars (fun _ => none) (f.state.unregister (addr.plain f.vars))

/-- The call of the checker itself, with tagged pointers. -/
def tagged (f : Frame (Checker Heap) Pointer Var) :
    Call Var → Except Violation (Option Int64) × Frame (Checker Heap) Pointer Var
  | assign x addr => assigns f.vars x (.ok (.ofAddr addr), f.state)
  | advance x base offset =>
    match f.state.advance (base.tagged f.vars) offset with
    | (ptr, c) => assigns f.vars x (.ok ptr, c)
  | load ptr offset access => keeps f.vars some (f.state.load (ptr.tagged f.vars) offset access)
  | store ptr offset access value =>
    keeps f.vars (fun _ => none) (f.state.store (ptr.tagged f.vars) offset access value)
  | allocate x size => assigns f.vars x (allocated (f.state.allocate size))
  | allocateZeros x count size => assigns f.vars x (allocated (f.state.allocateZeros count size))
  | free ptr => keeps f.vars (fun _ => none) (f.state.free (ptr.tagged f.vars).toAddr)
  | resize x ptr size => assigns f.vars x (allocated (f.state.resize (ptr.tagged f.vars).toAddr size))
  | register addr size =>
    keeps f.vars (fun _ => none) (f.state.register (addr.tagged f.vars).toAddr size)
  | unregister addr => keeps f.vars (fun _ => none) (f.state.unregister (addr.tagged f.vars).toAddr)

end Call

/-- What each call returns, and the frame after it.  A call that fails does not end the
run. -/
def trail {F R C : Type} (step : F → C → R × F) (f : F) : List C → List (R × F)
  | [] => []
  | call :: calls => step f call :: trail step (step f call).2 calls

/-- The plain frame is the tagged one without the tags. -/
structure Mirrors (plain : Frame Handle Addr Var) (tagged : Frame (Checker Heap) Pointer Var) :
    Prop where
  /-- The checker is the same, with its table, its heap and its settings. -/
  checker_eq : plain.state.checker? = some tagged.state
  /-- The plain variables are written from the tagged ones. -/
  toAddr_eq : ∀ x, plain.vars x = (tagged.vars x).toAddr
  /-- No valid pointer looks like an invalid one. -/
  ne_invalid : ∀ x, tagged.vars x ≠ .valid invalidAddr
  /-- So the tagged variables are read back from the plain ones. -/
  ofAddr_eq : ∀ x, tagged.vars x = .ofAddr (plain.vars x)

/-- A call has returned the same in both interfaces, a violation as the interruption with
its diagnostic, and has left frames that differ by the tags only. -/
structure Follows (plain : Except Abort (Option Int64) × Frame Handle Addr Var)
    (tagged : Except Violation (Option Int64) × Frame (Checker Heap) Pointer Var) : Prop where
  result_eq : plain.1 = tagged.1.mapError fun violation => .interrupt violation.diagnostic
  mirrors : Mirrors plain.2 tagged.2

/-- The checker interrupts at violations, and its heap is tidy. -/
structure Kept (c : Checker Heap) : Prop where
  interrupts : c.config.onViolation = .interrupt
  tidy : c.heap.Tidy

variable {c after : Checker Heap} {plain : Frame Handle Addr Var}
  {tagged : Frame (Checker Heap) Pointer Var}

theorem Kept.upkeep (h : Kept c) (hupkeep : c.Upkeep after) : Kept after where
  interrupts := by
    rw [hupkeep.config_eq]
    exact h.interrupts
  tidy := hupkeep.keeps _ Heap.stable_tidy h.tidy

/-- That tagged variables are read back from plain ones follows from the rest. -/
theorem Mirrors.intro (hchecker : plain.state = ⟨some tagged.state⟩)
    (hvars : ∀ x, plain.vars x = (tagged.vars x).toAddr)
    (hne : ∀ x, tagged.vars x ≠ .valid invalidAddr) : Mirrors plain tagged where
  checker_eq := congrArg Handle.checker? hchecker
  toAddr_eq := hvars
  ne_invalid := hne
  ofAddr_eq x := by rw [hvars, Pointer.ofAddr_toAddr (hne x)]

theorem Mirrors.state_eq (h : Mirrors plain tagged) : plain.state = ⟨some tagged.state⟩ := by
  have hchecker := h.checker_eq
  rcases plain with ⟨⟨checker?⟩, vars⟩
  exact congrArg Handle.mk hchecker

/-! ## Arguments -/

/-- A plain argument is written from the tagged one. -/
theorem Mirrors.plain_operand (h : Mirrors plain tagged) (operand : Operand Var) :
    operand.plain plain.vars = (operand.tagged tagged.vars).toAddr := by
  cases operand with
  | const addr => exact (Pointer.toAddr_ofAddr addr).symm
  | var x => exact h.toAddr_eq x

/-- A tagged argument is read back from the plain one. -/
theorem Mirrors.ofAddr_operand (h : Mirrors plain tagged) (operand : Operand Var) :
    .ofAddr (operand.plain plain.vars) = operand.tagged tagged.vars := by
  cases operand with
  | const addr => rfl
  | var x => exact (h.ofAddr_eq x).symm

/-! ## Outcomes -/

/-- How a handle passes on an outcome of its checker, if that interrupts at violations. -/
def relay {β : Type} (f : α → β) (outcome : Except Violation α × Checker Heap) :
    Except Abort β × Handle :=
  ((outcome.1.mapError fun violation => .interrupt violation.diagnostic).map f,
    ⟨some outcome.2⟩)

/-- A handle whose checker interrupts passes its outcome on. -/
theorem run_eq_relay (operation : Checker Heap → Except Violation α × Checker Heap)
    (hkept : Kept (operation c).2) :
    (Handle.mk (some c)).run operation = relay id (operation c) := by
  have hinterrupts := hkept.interrupts
  unfold Handle.run
  dsimp only
  generalize operation c = outcome at hinterrupts ⊢
  rcases outcome with ⟨violation | value, after⟩
  · have habort : after.config.onViolation.abort violation = .interrupt violation.diagnostic := by
      rw [hinterrupts]
      rfl
    simp only [Checker.orAbort, habort]
    rfl
  · rfl

/-- A failed allocation is null in both interfaces. -/
theorem rawAllocation_relay (outcome : Except Violation (Option Addr) × Checker Heap) :
    (Handle.rawAllocation (relay id outcome).1, (relay id outcome).2) =
      relay Pointer.toAddr (allocated outcome) := by
  rcases outcome with ⟨violation | addr, after⟩ <;> rfl

theorem Mirrors.keeps (h : Mirrors plain tagged) (shown : α → Option Int64)
    (outcome : Except Violation α × Checker Heap) :
    Follows (keeps plain.vars shown (relay id outcome)) (keeps tagged.vars shown outcome) := by
  rcases outcome with ⟨violation | value, after⟩ <;>
    exact ⟨rfl, .intro rfl h.toAddr_eq h.ne_invalid⟩

/-- An operation whose result goes to no variable. -/
theorem Mirrors.run_keeps (h : Mirrors plain tagged) (hkept : Kept tagged.state)
    (operation : Checker Heap → Except Violation α × Checker Heap)
    (hupkeep : tagged.state.Upkeep (operation tagged.state).2) (shown : α → Option Int64) :
    Follows (Client.keeps plain.vars shown (plain.state.run operation))
      (Client.keeps tagged.vars shown (operation tagged.state)) := by
  rw [h.state_eq, run_eq_relay operation (hkept.upkeep hupkeep)]
  exact h.keeps shown _

variable [DecidableEq Var]

/-- Both interfaces assign the same, up to the tag. -/
theorem Mirrors.assigns (h : Mirrors plain tagged) (x : Var)
    {outcome : Except Violation Pointer × Checker Heap}
    (hne : ∀ ptr, outcome.1 = .ok ptr → ptr ≠ .valid invalidAddr) :
    Follows (assigns plain.vars x (relay Pointer.toAddr outcome))
      (assigns tagged.vars x outcome) := by
  rcases outcome with ⟨violation | ptr, after⟩
  · exact ⟨rfl, .intro rfl h.toAddr_eq h.ne_invalid⟩
  · refine ⟨rfl, .intro rfl ?_ ?_⟩
    · intro y
      show Function.update plain.vars x ptr.toAddr y = (Function.update tagged.vars x ptr y).toAddr
      by_cases hsame : y = x
      · rw [hsame, Function.update_self, Function.update_self]
      · rw [Function.update_of_ne hsame, Function.update_of_ne hsame, h.toAddr_eq]
    · intro y
      show Function.update tagged.vars x ptr y ≠ _
      by_cases hsame : y = x
      · rw [hsame, Function.update_self]
        exact hne ptr rfl
      · rw [Function.update_of_ne hsame]
        exact h.ne_invalid y

/-! ## Addresses of allocations -/

/-- A pointer to an allocation does not look like an invalid one. -/
theorem allocated_ne {outcome : Except Violation (Option Addr) × Checker Heap}
    (hdvd : ∀ addr, outcome.1 = .ok (some addr) → heapUnit ∣ addr.toNat) :
    ∀ ptr, (allocated outcome).1 = .ok ptr → ptr ≠ .valid invalidAddr := by
  intro ptr hok
  rcases outcome with ⟨violation | _ | addr, after⟩
  · cases hok
  · obtain rfl := Except.ok.inj hok
    exact Pointer.valid_ne_of_dvd (Nat.dvd_zero _)
  · obtain rfl := Except.ok.inj hok
    exact Pointer.valid_ne_of_dvd (hdvd addr rfl)

/-! ## Calls -/

theorem state_assigns (vars : Var → Value) (x : Var) (outcome : Except ε Value × State) :
    (Client.assigns vars x outcome).2.state = outcome.2 := by
  rcases outcome with ⟨cause | value, after⟩ <;> rfl

/-- Every call leaves what the allocator keeps. -/
theorem Call.upkeep (call : Call Var) (tagged : Frame (Checker Heap) Pointer Var) :
    tagged.state.Upkeep (call.tagged tagged).2.state := by
  cases call with
  | assign x addr =>
      rw [Call.tagged, state_assigns]
      exact .refl _
  | advance x base offset =>
      rw [Call.tagged, state_assigns]
      exact .of_table _ _
  | load ptr offset access => exact (Checker.Op.load _ offset access).upkeep _
  | store ptr offset access value => exact (Checker.Op.store _ offset access value).upkeep _
  | allocate x size =>
      rw [Call.tagged, state_assigns]
      exact Checker.upkeep_allocate _ size
  | allocateZeros x count size =>
      rw [Call.tagged, state_assigns]
      exact Checker.upkeep_allocateZeros _ count size
  | free ptr => exact Checker.upkeep_free _ _
  | resize x ptr size =>
      rw [Call.tagged, state_assigns]
      exact Checker.upkeep_resize _ _ size
  | register addr size => exact .of_table _ _
  | unregister addr => exact .of_table _ _

/-- An operation that allocates. -/
theorem Mirrors.run_assigns (h : Mirrors plain tagged) (hkept : Kept tagged.state)
    (operation : Checker Heap → Except Violation (Option Addr) × Checker Heap)
    (hupkeep : tagged.state.Upkeep (operation tagged.state).2) {size : UInt32}
    (hallocates : ∀ addr, (operation tagged.state).1 = .ok (some addr) →
      (tagged.state.heap.allocate size).1 = some addr) (x : Var) :
    Follows
      (Client.assigns plain.vars x
        (Handle.rawAllocation (plain.state.run operation).1, (plain.state.run operation).2))
      (Client.assigns tagged.vars x (allocated (operation tagged.state))) := by
  rw [h.state_eq, run_eq_relay operation (hkept.upkeep hupkeep), rawAllocation_relay]
  refine h.assigns x (allocated_ne ?_)
  intro addr hok
  exact hkept.tidy.dvd_of_allocate (hallocates addr hok)

/-- Each call on plain addresses follows the one on tagged pointers, violations included. -/
theorem Mirrors.call (h : Mirrors plain tagged) (hkept : Kept tagged.state) (call : Call Var) :
    Follows (call.plain plain) (call.tagged tagged) := by
  have hupkeep := call.upkeep tagged
  cases call with
  | assign x addr =>
      have hassigned := @Mirrors.assigns _ _ _ _ h x (.ok (.ofAddr addr), tagged.state) ?_
      · have hrelay : relay Pointer.toAddr (.ok (.ofAddr addr), tagged.state) =
            (.ok addr, ⟨some tagged.state⟩) :=
          Prod.ext (congrArg Except.ok (Pointer.toAddr_ofAddr addr)) rfl
        rw [Call.plain, h.state_eq, ← hrelay]
        exact hassigned
      · intro ptr hok
        obtain rfl := Except.ok.inj hok
        exact Pointer.ofAddr_ne_valid addr
  | advance x base offset =>
      have hmoved := @Mirrors.assigns _ _ _ _ h x
        (.ok (tagged.state.advance (base.tagged tagged.vars) offset).1,
          (tagged.state.advance (base.tagged tagged.vars) offset).2) ?_
      · rw [Call.plain, h.state_eq, Handle.advance, h.ofAddr_operand]
        exact hmoved
      · intro ptr hok
        obtain rfl := Except.ok.inj hok
        exact tagged.state.table.advance_ne_invalidAddr _ offset _
  | load ptr offset access =>
      rw [Call.plain, Handle.load, h.ofAddr_operand]
      exact h.run_keeps hkept _ hupkeep some
  | store ptr offset access value =>
      rw [Call.plain, Handle.store, h.ofAddr_operand]
      exact h.run_keeps hkept _ hupkeep _
  | allocate x size =>
      exact h.run_assigns hkept _ (Checker.upkeep_allocate _ size)
        (fun _ => Checker.heap_allocate_of_allocate) x
  | allocateZeros x count size =>
      exact h.run_assigns hkept _ (Checker.upkeep_allocateZeros _ count size)
        (fun _ => Checker.heap_allocate_of_allocateZeros) x
  | free ptr =>
      rw [Call.plain, h.plain_operand]
      exact h.run_keeps hkept _ hupkeep _
  | resize x ptr size =>
      rw [Call.plain, h.plain_operand]
      exact h.run_assigns hkept _ (Checker.upkeep_resize _ _ size)
        (fun _ => Checker.heap_allocate_of_resize) x
  | register addr size =>
      rw [Call.plain, h.plain_operand]
      exact h.run_keeps hkept _ hupkeep _
  | unregister addr =>
      rw [Call.plain, h.plain_operand]
      exact h.run_keeps hkept _ hupkeep _

/-- The frames stay in step call by call, also behind calls that fail. -/
theorem Mirrors.trail (h : Mirrors plain tagged) (hkept : Kept tagged.state)
    (calls : List (Call Var)) :
    List.Forall₂ Follows (trail Call.plain plain calls)
      (trail Call.tagged tagged calls) := by
  induction calls generalizing plain tagged with
  | nil => exact .nil
  | cons call calls ih =>
      have hfollows := h.call hkept call
      exact .cons hfollows (ih hfollows.mirrors (hkept.upkeep (call.upkeep tagged)))

/-- With a configuration that passes the check and interrupts at violations, a handle with
an installed checker and a fresh checker of its own serve every client alike, whatever
its variables hold at first. -/
theorem follows_of_create {config : Config} (hplaced : config.checkPlacement = .ok ())
    (hinterrupts : config.onViolation = .interrupt) :
    ∃ c h, Checker.create config = .ok c ∧ Handle.empty.install config = (.ok (), h) ∧
      ∀ (Var : Type) [DecidableEq Var] (start : Var → Addr) (calls : List (Call Var)),
        List.Forall₂ Follows (trail Call.plain ⟨h, start⟩ calls)
          (trail Call.tagged ⟨c, fun x => .ofAddr (start x)⟩ calls) := by
  obtain ⟨c, hcreate, hinstep⟩ := Checker.exists_create hplaced
  have hkept : Kept c := by
    refine ⟨?_, Checker.tidy_of_create hcreate⟩
    rw [(hinstep ∅).config_eq]
    exact hinterrupts
  have hinstall : Handle.empty.install config = (.ok (), ⟨some c⟩) := by
    simp only [Handle.install, hcreate, Handle.empty]
  refine ⟨c, ⟨some c⟩, hcreate, hinstall, ?_⟩
  intro Var _ start calls
  refine Mirrors.trail (.intro rfl ?_ ?_) hkept calls
  · intro x
    exact (Pointer.toAddr_ofAddr (start x)).symm
  · intro x
    exact Pointer.ofAddr_ne_valid (start x)

/-- A variable is set to the reserved address, and a load through it fails in both. -/
theorem follows_of_create_invalid :
    ∃ h : Handle,
      Handle.empty.install { Config.default with onViolation := .interrupt } = (.ok (), h) ∧
      (trail Call.plain ⟨h, fun _ : Unit => 0⟩
        [.assign () invalidAddr, .load (.var ()) 0 ⟨.byte, .unsigned⟩]).map Prod.fst =
        [.ok none, .error (.interrupt (Violation.invalidAccess invalidAddr 0 1).diagnostic)] := by
  obtain ⟨c, h, -, hinstall, hfollows⟩ :=
    @follows_of_create { Config.default with onViolation := .interrupt } (by decide) rfl
  refine ⟨h, hinstall, ?_⟩
  cases hfollows Unit (fun _ => 0)
    [.assign () invalidAddr, .load (.var ()) 0 ⟨.byte, .unsigned⟩] with
  | cons hassign hrest =>
      cases hrest with
      | cons hload hnone =>
          have hload' := hload.result_eq
          have hassign' := hassign.result_eq
          simp only [trail, List.map_cons, List.map_nil, hassign', hload']
          rfl

end Client

end RegionGuard
