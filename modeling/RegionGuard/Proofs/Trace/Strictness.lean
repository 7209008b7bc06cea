import RegionGuard.Proofs.Checker.Peers
import RegionGuard.Trace.Replay

/-!
# Strict replays

A strict checker only ever rejects more.  A trace that it replays without failure is
replayed by its permissive peer with the same output, and heap and live regions end
up the same.  What may differ is the pointers: one that became invalid
outside all regions has an address in the permissive replay.  A trace can tell the
two apart only by expecting it to be invalid.

The replays go side by side.  A statement that succeeds in the strict one succeeds in
the other, and their checkers stay peers; no statement that needs a pointer accepts
an invalid one, and the other statements do not look at pointers.
-/

namespace RegionGuard.Trace

/-- If the statement succeeds, it registers the region: memory that it names itself, or
what the allocator has handed out for it. -/
inductive Registers (r : Replay Heap) : Statement → Bounds → Prop
  | alloc {name : String} {size : UInt32} {addr : Addr}
      (h : (r.checker.allocate size).1 = .ok (some addr)) :
      Registers r (.alloc name size) ⟨addr, size⟩
  | calloc {name : String} {count size : UInt32} {addr : Addr}
      (h : (r.checker.allocateZeros count size).1 = .ok (some addr)) :
      Registers r (.calloc name count size) ⟨addr, count * size⟩
  | realloc {name : String} {ptr : Pointer} {size : UInt32} {target : Addr}
      (hptr : r.names[name]? = some ptr)
      (h : (r.checker.resize ptr.toAddr size).1 = .ok (some target)) :
      Registers r (.realloc name size) ⟨target, size⟩
  | region {addr : Addr} {size : UInt32} (h : (r.checker.register addr size).1 = .ok ()) :
      Registers r (.region addr size) ⟨addr, size⟩

/-- A replay of statements that register suitable regions only. -/
def system : System (Replay Heap) Statement where
  permits r statement := ∀ b, Registers r statement b → b.Suits r.checker.table.liveRegions
  next r statement := (r.step statement).2

/-- The same names are bound, and valid pointers are bound to them in the second place
where they are in the first. -/
def NamesRelax (names names' : Bindings) : Prop :=
  ∀ name : String, Option.Rel Pointer.Relaxes names[name]? names'[name]?

/-- Names stay related when both get a related pointer. -/
theorem NamesRelax.insert {names names' : Bindings} (h : NamesRelax names names') (name : String)
    {ptr ptr' : Pointer} (hptr : ptr.Relaxes ptr') :
    NamesRelax (names.insert name ptr) (names'.insert name ptr') := by
  intro other
  rw [Std.TreeMap.getElem?_insert, Std.TreeMap.getElem?_insert]
  split
  · exact .some hptr
  · exact h other

namespace Replay

/-- A strict replay and a permissive one, side by side. -/
structure Peers (config : Config) (live : Set Bounds) (r r' : Replay Heap) : Prop where
  checkers : Checker.Peers config live r.checker r'.checker
  names : NamesRelax r.names r'.names

/-- If the first statement succeeds, the second one writes the same, and peers are still
peers. -/
def Follows (config : Config) (first second : Except Failure String × Replay Heap) : Prop :=
  ∀ text, first.1 = .ok text →
    second.1 = .ok text ∧ ∃ live, Peers config live first.2 second.2

/-- The same regions are live, the heap is the same with its extents and bytes, and
pointers that are valid in the first replay are what they are there. -/
structure Agrees (r r' : Replay Heap) : Prop where
  liveRegions_eq : r'.checker.table.liveRegions = r.checker.table.liveRegions
  heap_eq : r'.checker.heap = r.checker.heap
  valid_eq : ∀ (name : String) (addr : Addr), r.names[name]? = some (.valid addr) →
    r'.names[name]? = some (.valid addr)

variable {config : Config} {live : Set Bounds} {r r' : Replay Heap} {names names' : Bindings}

/-- After a failure nothing is asked of the other replay. -/
theorem Follows.of_error {first second : Except Failure String × Replay Heap} (cause : Failure)
    (h : first.1 = .error cause) : Follows config first second := by
  intro text hok
  rw [h] at hok
  cases hok

/-- Both replays print the same text and are peers afterwards. -/
theorem Follows.of_ok {text : String} {after after' : Replay Heap}
    (h : Peers config live after after') : Follows config (.ok text, after) (.ok text, after') := by
  intro _ hok
  exact ⟨hok, live, h⟩

/-! ## One statement -/

/-- An allocation is bound to the same name on both sides. -/
theorem Follows.bindAllocation (hnames : NamesRelax names names') (name : String)
    {first second : Except Violation (Option Addr) × Checker Heap}
    (h : Checker.Follows config first second) :
    Follows config (bindAllocation names name first) (bindAllocation names' name second) := by
  rcases h.error_or_ok with ⟨violation, after, rfl⟩ | ⟨found, after, after', live, rfl, rfl, hpeers⟩
  · exact .of_error _ rfl
  · exact .of_ok ⟨hpeers, hnames.insert name (.inr rfl)⟩

theorem Follows.finish (hnames : NamesRelax names names')
    {first second : Except Violation Unit × Checker Heap}
    (h : Checker.Follows config first second) :
    Follows config (finish names first) (finish names' second) := by
  rcases h.error_or_ok with ⟨violation, after, rfl⟩ | ⟨_, after, after', live, rfl, rfl, hpeers⟩
  · exact .of_error _ rfl
  · exact .of_ok ⟨hpeers, hnames⟩

/-- A name that is bound for the strict replay is bound for its peer, to a related pointer. -/
theorem Peers.withPointer (h : Peers config live r r') (name : String)
    {next : Pointer → Replay Heap → Except Failure String × Replay Heap}
    (hnext : ∀ ptr ptr', r.names[name]? = some ptr → ptr.Relaxes ptr' →
      Follows config (next ptr r) (next ptr' r')) :
    Follows config (r.withPointer name next) (r'.withPointer name next) := by
  have hname := h.names name
  unfold Replay.withPointer
  cases hptr : r.names[name]? with
  | none => exact .of_error (.unknownPointer name) rfl
  | some ptr =>
      rw [hptr] at hname
      cases hptr' : r'.names[name]? with
      | none =>
          rw [hptr'] at hname
          cases hname
      | some ptr' =>
          rw [hptr'] at hname
          cases hname with
          | some hrelaxes => exact hnext ptr ptr' hptr hrelaxes

/-- What a statement does in a strict replay it does in the permissive one, too. -/
theorem Peers.step (h : Peers config live r r') {statement : Statement}
    (hexpect : ∀ name, statement ≠ .expect name .invalid)
    (hpermitted : system.permits r statement) :
    Follows config (r.step statement) (r'.step statement) := by
  have hsuits : ∀ b, Registers r statement b → b.Suits live := by
    rw [← h.checkers.tracks.liveRegions_eq]
    exact hpermitted
  cases statement with
  | alloc name size =>
      apply Follows.bindAllocation h.names
      exact h.checkers.allocate fun addr hok => hsuits _ (.alloc hok)
  | calloc name count size =>
      apply Follows.bindAllocation h.names
      exact h.checkers.allocateZeros fun addr hok => hsuits _ (.calloc hok)
  | realloc name size =>
      apply h.withPointer
      intro ptr ptr' hptr hrelaxes
      apply Follows.bindAllocation h.names
      exact h.checkers.resize_pointer hrelaxes fun target hok => hsuits _ (.realloc hptr hok)
  | free name =>
      apply h.withPointer
      intro ptr ptr' _ hrelaxes
      exact .finish h.names (h.checkers.free_pointer hrelaxes)
  | assign name addr => exact .of_ok ⟨h.checkers, h.names.insert name (.inr rfl)⟩
  | region addr size =>
      apply Follows.finish h.names
      exact h.checkers.register fun hok => hsuits _ (.region hok)
  | unregister addr => exact .finish h.names (h.checkers.unregister addr)
  | advance name base offset =>
      apply h.withPointer
      intro ptr ptr' _ hrelaxes
      obtain ⟨hmoved, hpeers⟩ := h.checkers.advance hrelaxes offset
      exact .of_ok ⟨hpeers, h.names.insert name hmoved⟩
  | load name offset access =>
      apply h.withPointer
      intro ptr ptr' _ hrelaxes
      obtain ⟨c, names⟩ := r
      obtain ⟨other, names'⟩ := r'
      dsimp only
      rcases (h.checkers.load hrelaxes offset access).error_or_ok with
        ⟨violation, after, hloaded⟩ | ⟨value, after, after', live, hloaded, hloaded', hpeers⟩
      · rw [hloaded]
        exact .of_error _ rfl
      · rw [hloaded, hloaded']
        exact .of_ok ⟨hpeers, h.names⟩
  | store name offset access value =>
      apply h.withPointer
      intro ptr ptr' _ hrelaxes
      exact .finish h.names (h.checkers.store hrelaxes offset access value)
  | expect name state =>
      apply h.withPointer
      intro ptr ptr' _ hrelaxes
      rcases hrelaxes with hinvalid | rfl
      · -- only the state that no statement asks for could hold in the strict replay
        subst hinvalid
        refine .of_error (.wrongState name state .invalid) ?_
        have hstate : PointerState.of .invalid ≠ state := by
          rintro rfl
          exact hexpect name rfl
        rw [if_neg hstate]
        rfl
      · by_cases hstate : PointerState.of ptr' = state
        · rw [if_pos hstate, if_pos hstate]
          exact .of_ok h
        · rw [if_neg hstate]
          exact .of_error _ rfl
  | expectLoad name offset access value =>
      apply h.withPointer
      intro ptr ptr' _ hrelaxes
      obtain ⟨c, names⟩ := r
      obtain ⟨other, names'⟩ := r'
      dsimp only
      rcases (h.checkers.load hrelaxes offset access).error_or_ok with
        ⟨violation, after, hloaded⟩ | ⟨actual, after, after', live, hloaded, hloaded', hpeers⟩
      · rw [hloaded]
        exact .of_error _ rfl
      · rw [hloaded, hloaded']
        dsimp only
        by_cases hvalue : actual = value
        · rw [if_pos hvalue, if_pos hvalue]
          exact .of_ok ⟨hpeers, h.names⟩
        · rw [if_neg hvalue]
          exact .of_error _ rfl

/-! ## Whole traces -/

/-- Peers agree in all that can be observed. -/
theorem Peers.agrees (h : Peers config live r r') : Agrees r r' where
  liveRegions_eq := by
    rw [h.checkers.tracks.liveRegions_eq, h.checkers.tracks'.liveRegions_eq]
  heap_eq := h.checkers.heap_eq
  valid_eq name addr hvalid := by
    have hname := h.names name
    rw [hvalid] at hname
    cases hptr' : r'.names[name]? with
    | none =>
        rw [hptr'] at hname
        cases hname
    | some ptr' =>
        rw [hptr'] at hname
        cases hname with
        | some hrelaxes =>
            rcases hrelaxes with hinvalid | rfl
            · cases hinvalid
            · rfl

/-- A strict replay without failure is followed to its end. -/
theorem Peers.run (h : Peers config live r r') {lines : List Line} {output text : String}
    {last : Replay Heap} (hexpect : ∀ line ∈ lines, ∀ name, line.statement ≠ .expect name .invalid)
    (hrun : system.Run r (lines.map Line.statement) last)
    (hok : r.run output lines = (text, none, last)) :
    ∃ last' live', r'.run output lines = (text, none, last') ∧ Peers config live' last last' := by
  -- the strict replay goes on to its end, so none of its lines fails
  induction lines generalizing r r' live output with
  | nil =>
      obtain ⟨rfl, hlast⟩ := Prod.mk.inj hok
      obtain rfl := congrArg Prod.snd hlast
      exact ⟨r', live, rfl, h⟩
  | cons line lines ih =>
      cases hrun with
      | cons permitted tail =>
          have hfollows := h.step (hexpect line List.mem_cons_self) permitted
          have htail : system.Run (r.step line.statement).2 (lines.map Line.statement) last := tail
          rw [Replay.run] at hok ⊢
          rcases hstep : r.step line.statement with ⟨cause | written, next⟩
          · rw [hstep] at hok
            cases hok
          · rw [hstep] at hok htail hfollows
            obtain ⟨hok', live', hpeers⟩ := hfollows written rfl
            rcases hstep' : r'.step line.statement with ⟨result, next'⟩
            rw [hstep'] at hok' hpeers
            obtain rfl : result = .ok written := hok'
            exact ih hpeers (fun other hother => hexpect other (List.mem_cons_of_mem _ hother))
              htail hok

end Replay

/-- For every configuration whose heap can be placed, a trace that a strict checker
replays without failure is replayed by a permissive one with the same output and to the
same end, if it expects no pointer to be invalid and registers suitable regions only. -/
theorem agrees_of_strict {config : Config} (hplaced : config.checkPlacement = .ok ()) :
    ∃ c other, Checker.create (config.under .forbid) = .ok c ∧
      Checker.create (config.under .permit) = .ok other ∧
      ∀ lines text last, (∀ line ∈ lines, ∀ name, line.statement ≠ .expect name .invalid) →
        system.Run (.start c) (lines.map Line.statement) last →
        (Replay.start c).run "" lines = (text, none, last) →
        ∃ last', (Replay.start other).run "" lines = (text, none, last') ∧ last.Agrees last' := by
  obtain ⟨c, other, hc, hother, hpeers⟩ := Checker.exists_peers hplaced
  refine ⟨c, other, hc, hother, ?_⟩
  intro lines text last hexpect hrun hok
  have hstart : Replay.Peers config ∅ (.start c) (.start other) := by
    refine ⟨hpeers, ?_⟩
    intro name
    simp only [Replay.start, Std.TreeMap.getElem?_emptyc]
    exact .none
  obtain ⟨last', live', hok', hlast⟩ := hstart.run hexpect hrun hok
  exact ⟨last', hok', hlast.agrees⟩

/-! ## A trace in which the pointers differ -/

section

variable {c after : Checker Heap} {names : Bindings} {name base : String} {ptr : Pointer}
  {size : UInt32} {offset : Int32} {access : Access}

/-- A statement that allocates, for a given outcome of the checker. -/
theorem step_alloc {found : Option Addr} (h : c.allocate size = (.ok found, after)) :
    Replay.step ⟨c, names⟩ (.alloc name size) =
      (.ok "", ⟨after, names.insert name (.valid (found.getD 0))⟩) := by
  simp only [Replay.step, h, Replay.bindAllocation]

theorem step_advance {moved : Pointer} (hptr : names[base]? = some ptr)
    (h : c.advance ptr offset = (moved, after)) :
    Replay.step ⟨c, names⟩ (.advance name base offset) =
      (.ok "", ⟨after, names.insert name moved⟩) := by
  simp only [Replay.step, Replay.withPointer, hptr, h]

theorem step_load {value : Int64} (hptr : names[name]? = some ptr)
    (h : c.load ptr offset access = (.ok value, after)) :
    Replay.step ⟨c, names⟩ (.load name offset access) =
      (.ok s!"{name}[{offset.toInt}] = {value.toInt}\n", ⟨after, names⟩) := by
  simp only [Replay.step, Replay.withPointer, hptr, h]

/-- A statement that succeeds and registers suitable regions, before a trace that is
replayed without failure. -/
theorem run_cons_of_ok {r next last : Replay Heap} {line : Line} {lines : List Line}
    {output written text : String} (hstep : r.step line.statement = (.ok written, next))
    (hsuits : ∀ b, Registers r line.statement b → b.Suits r.checker.table.liveRegions)
    (htail : system.Run next (lines.map Line.statement) last ∧
      next.run (output ++ written) lines = (text, none, last)) :
    system.Run r ((line :: lines).map Line.statement) last ∧
      r.run output (line :: lines) = (text, none, last) := by
  constructor
  · have hnext : system.next r line.statement = next := congrArg Prod.snd hstep
    rw [← hnext] at htail
    exact .cons hsuits htail.1
  · rw [Replay.run, hstep]
    exact htail.2

end

/-- A pointer moves through untracked memory; then memory is allocated and read. -/
def strayTrace : List Line :=
  [⟨1, .assign "q" 0x20000000⟩, ⟨2, .advance "q" "q" 4⟩, ⟨3, .alloc "p" 16⟩,
    ⟨4, .load "p" 0 ⟨.byte, .unsigned⟩⟩]

/-- As long as nothing is allocated, an allocation starts with the heap and holds zeros. -/
theorem exists_allocated {table : Table}
    (h : Checker.InStep Checker.strictConfig ∅
      ⟨table, Heap.fresh Checker.strictConfig.heap, Checker.strictConfig⟩ ∅) :
    ∃ c, Checker.allocate ⟨table, Heap.fresh Checker.strictConfig.heap, Checker.strictConfig⟩ 16 =
        (.ok (some 0x10000000), c) ∧
      (c.load (.valid 0x10000000) 0 ⟨.byte, .unsigned⟩).1 = .ok 0 := by
  have hneeded : Heap.needed? 16 = some 24 := by decide
  have hfree : (Heap.fresh Checker.strictConfig.heap).free = [⟨0x10000000, 0x1000000⟩] := by decide
  have hfound : ⟨0x10000000, 0x1000000⟩ ∈ (Heap.fresh Checker.strictConfig.heap).free := by
    simp [hfree]
  obtain ⟨after, htable, hallocates⟩ := h.carve hneeded hfound (by decide)
  refine ⟨_, Checker.allocate_of_some rfl htable, ?_⟩
  have hregion : (⟨0x10000000, 16⟩ : Bounds) ∈ after.liveRegions := by
    rw [hallocates.inStep.tracks.liveRegions_eq]
    exact Set.mem_insert _ _
  refine hallocates.inStep.load_eq_ok_iff.mpr ⟨0x10000000, ⟨.inl ⟨⟨0x10000000, 16⟩, ?_⟩, ?_⟩, ?_⟩
  · refine ⟨hregion, ⟨0x10000000, rfl, by decide, by decide⟩, ?_⟩
    intro place hfrom hto
    have hfrom' : 268435456 ≤ place := hfrom
    have hto' : place < 268435456 + 1 := hto
    show 268435456 ≤ place ∧ place < 268435456 + 16
    omega
  · have hmapped : ((Heap.fresh Checker.strictConfig.heap).carve 24
        ⟨0x10000000, 0x1000000⟩).mapped 0x10000000 1 = .ok () := by decide
    exact hmapped
  · show Access.decode _ [Bytes.zeros.get _] = _
    rw [Bytes.get_zeros]
    decide

/-- A pointer that a strict checker moves through untracked memory is invalid then. -/
theorem exists_moved {table : Table} {zones : List Zone} (h : table.Tracks zones ∅)
    (heap : Heap) :
    ∃ after, after.Tracks zones ∅ ∧
      Checker.advance ⟨table, heap, Checker.strictConfig⟩ (.valid 0x20000000) 4 =
        (.invalid, ⟨after, heap, Checker.strictConfig⟩) := by
  have hinvalid : (table.advance (.valid 0x20000000) 4 .forbid).1 = .invalid := by
    rw [h.advance_of_bars (h.bars_iff.mpr ⟨by simp, .inr rfl⟩)]
    decide
  rcases hmoved : table.advance (.valid 0x20000000) 4 .forbid with ⟨moved, after⟩
  have hafter := h.advance (.valid 0x20000000) 4 .forbid
  rw [hmoved] at hinvalid hafter
  obtain rfl : moved = .invalid := hinvalid
  exact ⟨after, hafter, Checker.advance_of_eq rfl hmoved⟩

/-- A strict checker replays the trace, and the pointer is invalid afterwards. -/
theorem exists_strayed {c : Checker Heap} (hc : Checker.create Checker.strictConfig = .ok c) :
    ∃ last, (system.Run (.start c) (strayTrace.map Line.statement) last ∧
        (Replay.start c).run "" strayTrace = ("p[0] = 0\n", none, last)) ∧
      last.names["q"]? = some .invalid ∧ last.names["p"]? = some (.valid 0x10000000) := by
  obtain ⟨table, hcreate, hfresh⟩ := Checker.exists_fresh (Checker.checkPlacement_of_create hc)
  obtain rfl := Except.ok.inj (hcreate.symm.trans hc)
  obtain ⟨table₁, hafter, hadvanced⟩ := exists_moved (hfresh ∅).tracks
    (Heap.fresh Checker.strictConfig.heap)
  obtain ⟨c₂, hallocated, hvalue⟩ := exists_allocated ((hfresh ∅).of_table hafter)
  rcases hloaded : c₂.load (.valid 0x10000000) 0 ⟨.byte, .unsigned⟩ with ⟨result, c₃⟩
  rw [hloaded] at hvalue
  obtain rfl : result = .ok 0 := hvalue
  have hq : ((∅ : Bindings).insert "q" (.ofAddr 0x20000000))["q"]? = some (.valid 0x20000000) :=
    Std.TreeMap.getElem?_insert_self
  have hp : ∀ names : Bindings, (names.insert "p" (.valid 0x10000000))["p"]? =
      some (.valid 0x10000000) := fun _ => Std.TreeMap.getElem?_insert_self
  have hregisters : ∀ b names, Registers ⟨⟨table₁, Heap.fresh Checker.strictConfig.heap,
      Checker.strictConfig⟩, names⟩ (.alloc "p" 16) b → b.Suits table₁.liveRegions := by
    intro b names hb
    rw [hafter.liveRegions_eq]
    cases hb with
    | alloc hok =>
        rw [hallocated] at hok
        obtain rfl := Option.some.inj (Except.ok.inj hok)
        exact ⟨by decide, by simp⟩
  let names : Bindings := ((∅ : Bindings).insert "q" (.ofAddr 0x20000000)).insert "q" .invalid
  refine ⟨⟨c₃, names.insert "p" (.valid 0x10000000)⟩, ?_, ?_, hp names⟩
  · refine run_cons_of_ok rfl (fun b hb => nomatch hb) ?_
    refine run_cons_of_ok (step_advance hq hadvanced) (fun b hb => nomatch hb) ?_
    refine run_cons_of_ok (step_alloc hallocated) (fun b hb => hregisters b _ hb) ?_
    refine run_cons_of_ok (step_load (hp names) hloaded) (fun b hb => nomatch hb) ?_
    exact ⟨.nil _, rfl⟩
  · rw [Std.TreeMap.getElem?_insert, if_neg (by decide)]
    exact Std.TreeMap.getElem?_insert_self

/-- The permissive checker replays the trace to the same end, although the pointer is
not invalid there. -/
theorem agrees_of_strict_stray :
    ∃ c other last last', Checker.create (Config.default.under .forbid) = .ok c ∧
      Checker.create (Config.default.under .permit) = .ok other ∧
      (Replay.start c).run "" strayTrace = ("p[0] = 0\n", none, last) ∧
      last.names["q"]? = some .invalid ∧
      (Replay.start other).run "" strayTrace = ("p[0] = 0\n", none, last') ∧
      last'.names["p"]? = some (.valid 0x10000000) := by
  obtain ⟨c, other, hc, hother, hagrees⟩ := @agrees_of_strict Config.default (by decide)
  obtain ⟨last, ⟨hrun, hok⟩, hq, hp⟩ := exists_strayed hc
  obtain ⟨last', hok', hlast⟩ := hagrees strayTrace _ last (by simp [strayTrace]) hrun hok
  exact ⟨c, other, last, last', hc, hother, hok, hq, hok', hlast.valid_eq _ _ hp⟩

end RegionGuard.Trace
