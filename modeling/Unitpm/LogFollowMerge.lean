import Unitpm.LogMerge
import Unitpm.Lib.PriorityQueue

/-! # Following several log files

`follow_merge` of `cli::commands::logs::follow` receives the entries of all followers and keeps them
in a heap.  Each time round the loop it reads the clock and writes the entries that are no later.
When the last follower has exited the loop ends, whatever is in the heap.

The heap is a `BinaryHeap`, which leaves open what comes first of entries with the same key; here
it is any `Queue`.  `followMerge_written_iff` says for which runs all entries are written. -/

namespace Unitpm.Logs

open Priority List

/-! ### The loop -/

/-- `FollowMessage`. -/
inductive FollowMessage where
  | entry (e : Entry)
  | err (msg : String)

/-- The time that an entry waits for in the heap. -/
def heapTime (e : Entry) : ℤ := e.tsUnix.getD 0

/-- The order of `HeapEntry`, from the top of the heap down. -/
def heapKey (e : Entry) : ℤ ×ₗ ℕ := toLex (heapTime e, e.seq)

/-- `EntryHeap`. -/
abbrev EntryHeap : Type 1 := Queue Entry (ℤ ×ₗ ℕ) heapKey

/-- `FLUSH_DELAY`, in milliseconds. -/
def flushDelay : ℤ := 200

/-- `now_unix_minus`, of a delay in milliseconds: `as_secs` drops the part of a second. -/
def nowUnixMinus (now delay : ℤ) : ℤ := now - delay / 1000

/-- The entry is no later than the cutoff. -/
def due (now : ℤ) (e : Entry) : Bool := ¬ nowUnixMinus now flushDelay < heapTime e

/-- A round of the loop: the message that is received, none if there is none in time, and the clock
behind it. -/
abbrev Round : Type := Option FollowMessage × ℤ

/-- What `follow_merge` keeps and has written. -/
structure FollowState (heap : EntryHeap) where
  entries : heap.Carrier
  written : List Entry
  stderr : List String

section

variable (heap : EntryHeap) (fs : Filter) (accepts : List Entry → Entry → Bool)

/-- `writeln!` of the entries that pass the filter, none if a write fails. -/
def writeKept : List Entry → List Entry → Option (List Entry)
  | written, [] => some written
  | written, e :: es =>
      if fs.keep e then
        if accepts written e then writeKept (written ++ [e]) es else none
      else writeKept written es

/-- What is done with a message. -/
def receive (s : FollowState heap) : Option FollowMessage → FollowState heap
  | some (.entry e) => { s with entries := heap.push e s.entries }
  | some (.err msg) =>
      { s with stderr := s.stderr ++ ["\x1b[31mfollow error: " ++ msg ++ "\x1b[0m"] }
  | none => s

/-- The flush pass: the entries at the top of the heap that are due. -/
def flushDue (now : ℤ) (s : FollowState heap) : Option (FollowState heap) :=
  let r := takeDue heap (due now) (heap.content s.entries).length s.entries
  (writeKept fs accepts s.written r.1).map fun written =>
    { s with entries := r.2, written := written }

/-- The loop, up to the round in which the channel is found closed. -/
def followRounds : List Round → FollowState heap → Option (FollowState heap)
  | [], s => some s
  | (m, now) :: rounds, s =>
      (flushDue heap fs accepts now (receive heap s m)).bind (followRounds rounds)

/-- `follow_merge`: what has been written when it returns `Ok`, none if it returns an error. -/
def followMerge (rounds : List Round) : Option (List Entry) :=
  (followRounds heap fs accepts rounds ⟨heap.empty, [], []⟩).map FollowState.written

end

/-! ### What the rounds receive, and what they leave in the heap -/

/-- The entry of a round. -/
def Round.entry? (r : Round) : Option Entry :=
  match r.1 with
  | some (.entry e) => some e
  | _ => none

/-- The entries that are received. -/
def received (rounds : List Round) : List Entry := rounds.filterMap Round.entry?

/-- Every entry that passes the filter is due at the clock of its own round, or of a later one. -/
def AllDue (fs : Filter) : List Round → Prop
  | [] => True
  | r :: rounds =>
      (∀ e ∈ r.entry?, fs.keep e → ∃ t ∈ r :: rounds, due t.2 e) ∧ AllDue fs rounds

instance (fs : Filter) : (rounds : List Round) → Decidable (AllDue fs rounds)
  | [] => isTrue trivial
  | r :: rounds =>
      haveI : Decidable (AllDue fs rounds) := instDecidableAllDue fs rounds
      inferInstanceAs (Decidable
        ((∀ e ∈ r.entry?, fs.keep e → ∃ t ∈ r :: rounds, due t.2 e) ∧ AllDue fs rounds))

/-- What is in the heap behind some rounds. -/
def leftOver : List Round → List Entry → List Entry
  | [], es => es
  | r :: rounds, es => leftOver rounds ((r.entry?.toList ++ es).filter fun e => !due r.2 e)

section

variable {heap : EntryHeap} {fs : Filter} {accepts : List Entry → Entry → Bool}

/-! ### A round -/

theorem eq_of_writeKept {written es w : List Entry}
    (h : writeKept fs accepts written es = some w) : w = written ++ es.filter fs.keep := by
  induction es generalizing written with
  | nil => simpa [writeKept] using h.symm
  | cons e es ih =>
      rw [writeKept] at h
      split_ifs at h with hk ha
      · rw [ih h, List.filter_cons_of_pos hk, List.append_assoc, List.singleton_append]
      · rw [ih h, List.filter_cons_of_neg hk]

theorem content_receive (s : FollowState heap) (r : Round) :
    (heap.content (receive heap s r.1).entries).Perm
      (r.entry?.toList ++ heap.content s.entries) := by
  rw [Round.entry?]
  cases r.1 with
  | none => exact List.Perm.refl _
  | some m =>
      cases m with
      | entry e => exact heap.content_push e s.entries
      | err msg => exact List.Perm.refl _

theorem written_receive (s : FollowState heap) (m : Option FollowMessage) :
    (receive heap s m).written = s.written := by
  cases m with
  | none => rfl
  | some m => cases m <;> rfl

theorem due_of_heapKey_le {now : ℤ} (a b : Entry) (h : heapKey a ≤ heapKey b)
    (hb : due now b = true) : due now a = true := by
  have hle : heapTime a ≤ heapTime b := Prod.Lex.monotone_fst _ _ h
  simp only [due, not_lt, decide_eq_true_eq] at hb ⊢
  exact hle.trans hb

/-- A flush writes what is due and passes the filter, and leaves what is not due. -/
theorem flushDue_spec {now : ℤ} {s s' : FollowState heap}
    (h : flushDue heap fs accepts now s = some s') :
    (heap.content s'.entries).Perm ((heap.content s.entries).filter fun e => !due now e) ∧
      s'.written.Perm
        (s.written ++ ((heap.content s.entries).filter (due now)).filter fs.keep) := by
  rw [flushDue, Option.map_eq_some_iff] at h
  obtain ⟨w, hw, rfl⟩ := h
  obtain ⟨htaken, hleft⟩ : (takeDue heap (due now) (heap.content s.entries).length s.entries).1.Perm
        ((heap.content s.entries).filter (due now)) ∧
      (heap.content (takeDue heap (due now) (heap.content s.entries).length s.entries).2).Perm
        ((heap.content s.entries).filter fun e => !due now e) :=
    takeDue_spec due_of_heapKey_le le_rfl
  refine ⟨hleft, ?_⟩
  rw [eq_of_writeKept hw]
  exact (htaken.filter fs.keep).append_left s.written

/-! ### A run -/

theorem leftOver_perm {rounds : List Round} {es es' : List Entry} (h : es.Perm es') :
    (leftOver rounds es).Perm (leftOver rounds es') := by
  induction rounds generalizing es es' with
  | nil => exact h
  | cons r rounds ih => exact ih ((h.append_left r.entry?.toList).filter _)

/-- Nothing that passes the filter is left over if and only if all of it comes to be due. -/
theorem leftOver_none_kept_iff (rounds : List Round) (es : List Entry) :
    (∀ e ∈ leftOver rounds es, ¬ fs.keep e) ↔
      (∀ e ∈ es, fs.keep e → ∃ t ∈ rounds, due t.2 e) ∧ AllDue fs rounds := by
  induction rounds generalizing es with
  | nil => simp [leftOver, AllDue]
  | cons r rounds ih =>
      rw [leftOver, ih, AllDue, ← and_assoc]
      refine and_congr_left fun _ => ?_
      have hmem : ∀ e, e ∈ (r.entry?.toList ++ es).filter (fun e => !due r.2 e) ↔
          (e ∈ r.entry? ∨ e ∈ es) ∧ due r.2 e = false := by
        intro e
        rw [List.mem_filter, List.mem_append, Option.mem_toList]
        simp
      have hlater : ∀ e, (∃ t ∈ r :: rounds, due t.2 e = true) ↔
          (due r.2 e = false → ∃ t ∈ rounds, due t.2 e = true) := by
        intro e
        rw [List.exists_mem_cons_iff]
        cases due r.2 e <;> simp
      constructor
      · intro h
        refine ⟨fun e he hk => (hlater e).2 fun hd => ?_, fun e he hk => (hlater e).2 fun hd => ?_⟩
        · exact h e ((hmem e).2 ⟨.inr he, hd⟩) hk
        · exact h e ((hmem e).2 ⟨.inl he, hd⟩) hk
      · rintro ⟨hes, hentry⟩ e he hk
        obtain ⟨he | he, hd⟩ := (hmem e).1 he
        · exact (hlater e).1 (hentry e he hk) hd
        · exact (hlater e).1 (hes e he hk) hd

/-- What is in the heap behind a run, and that nothing else is missing. -/
theorem followRounds_spec {rounds : List Round} {s s' : FollowState heap}
    (h : followRounds heap fs accepts rounds s = some s') :
    (heap.content s'.entries).Perm (leftOver rounds (heap.content s.entries)) ∧
      (s'.written ++ (heap.content s'.entries).filter fs.keep).Perm
        (s.written ++ (received rounds ++ heap.content s.entries).filter fs.keep) := by
  induction rounds generalizing s with
  | nil =>
      obtain rfl : s = s' := Option.some.inj h
      exact ⟨List.Perm.refl _, List.Perm.refl _⟩
  | cons r rounds ih =>
      obtain ⟨m, now⟩ := r
      rw [followRounds, Option.bind_eq_some_iff] at h
      obtain ⟨t, ht, hrest⟩ := h
      obtain ⟨hleft, hwritten⟩ := flushDue_spec ht
      obtain ⟨hcontent, htotal⟩ := ih hrest
      have hin := content_receive s (m, now)
      refine ⟨hcontent.trans (leftOver_perm (hleft.trans (hin.filter _))), ?_⟩
      have hrecv : received ((m, now) :: rounds) =
          (Round.entry? (m, now)).toList ++ received rounds := by
        rw [received, List.filterMap_cons]
        cases Round.entry? (m, now) <;> rfl
      have hsplit := (List.filter_append_perm (due now)
        (heap.content (receive heap s m).entries)).filter fs.keep
      rw [List.filter_append] at hsplit
      rw [written_receive] at hwritten
      calc s'.written ++ (heap.content s'.entries).filter fs.keep
          _ ~ t.written ++ (received rounds ++ heap.content t.entries).filter fs.keep := htotal
          _ ~ (s.written ++ _) ++ ((received rounds).filter fs.keep ++ _) := by
              rw [List.filter_append]
              exact hwritten.append ((hleft.filter fs.keep).append_left _)
          _ ~ s.written ++ ((received rounds).filter fs.keep ++ _) := by
              rw [List.append_assoc]
              refine List.Perm.append_left _ ((List.perm_append_comm_assoc _ _ _).trans ?_)
              exact hsplit.append_left _
          _ ~ s.written ++ (received ((m, now) :: rounds) ++ heap.content s.entries).filter
                fs.keep := by
              refine List.Perm.append_left _ ?_
              rw [← List.filter_append, hrecv]
              refine List.Perm.filter _ ((hin.append_left _).trans ?_)
              rw [List.append_assoc]
              exact List.perm_append_comm_assoc _ _ _

end

/-- **Following to the end**: when `follow_merge` returns, every entry that it has received and that
passes the filter has been written once if and only if each of them was due at a clock reading of
the loop behind its arrival. -/
theorem followMerge_written_iff (heap : EntryHeap) (fs : Filter)
    (accepts : List Entry → Entry → Bool) (rounds : List Round) (written : List Entry)
    (h : followMerge heap fs accepts rounds = some written) :
    written.Perm ((received rounds).filter fs.keep) ↔ AllDue fs rounds := by
  rw [followMerge, Option.map_eq_some_iff] at h
  obtain ⟨s, hs, rfl⟩ := h
  obtain ⟨hleft, htotal⟩ := followRounds_spec hs
  simp only [heap.content_empty, List.append_nil, List.nil_append] at hleft htotal
  have hnone : s.written.Perm ((received rounds).filter fs.keep) ↔
      (heap.content s.entries).filter fs.keep = [] := by
    constructor
    · intro hw
      have hlen := htotal.length_eq
      rw [List.length_append, hw.length_eq] at hlen
      exact List.length_eq_zero_iff.1 (by omega)
    · intro hnil
      rwa [hnil, List.append_nil] at htotal
  have hall : AllDue fs rounds ↔ ∀ e ∈ leftOver rounds [], ¬ fs.keep e = true := by
    rw [leftOver_none_kept_iff, and_iff_right]
    simp
  rw [hnone, List.filter_eq_nil_iff, hall]
  exact forall_congr' fun e => by rw [hleft.mem_iff]

theorem writeKept_isSome (fs : Filter) (written es : List Entry) :
    (writeKept fs (fun _ _ => true) written es).isSome := by
  induction es generalizing written with
  | nil => rfl
  | cons e es ih =>
      rw [writeKept]
      by_cases hk : fs.keep e = true
      · rw [if_pos hk, if_pos rfl]
        exact ih _
      · rw [if_neg hk]
        exact ih _

theorem followMerge_isSome (heap : EntryHeap) (fs : Filter) (rounds : List Round) :
    (followMerge heap fs (fun _ _ => true) rounds).isSome := by
  have hrun : ∀ s, (followRounds heap fs (fun _ _ => true) rounds s).isSome := by
    induction rounds with
    | nil => exact fun _ => rfl
    | cons r rounds ih =>
        intro s
        have hflush : (flushDue heap fs (fun _ _ => true) r.2 (receive heap s r.1)).isSome := by
          rw [flushDue, Option.isSome_map]
          exact writeKept_isSome fs _ _
        obtain ⟨t, ht⟩ := Option.isSome_iff_exists.1 hflush
        rw [followRounds, ht]
        exact ih t
  rw [followMerge, Option.isSome_map]
  exact hrun _

/-- An entry from a clock that is ahead. -/
def aheadEntry : Entry := ⟨some 100, "STDOUT", "ready".toList, 0, true⟩

/-- It is received at 99, and then the follower exits: nothing is written. -/
theorem aheadEntry_not_written :
    followMerge (sortedQueue heapKey) .default (fun _ _ => true)
        [(some (.entry aheadEntry), 99)] = some [] ∧
      ¬ [].Perm ((received [(some (.entry aheadEntry), 99)]).filter (Filter.keep .default)) :=
  ⟨by decide, by decide⟩

theorem aheadEntry_written_later :
    [aheadEntry].Perm ((received [(some (.entry aheadEntry), 99), (none, 100)]).filter
      (Filter.keep .default)) :=
  (followMerge_written_iff (sortedQueue heapKey) .default (fun _ _ => true)
    [(some (.entry aheadEntry), 99), (none, 100)] [aheadEntry] (by decide)).2 (by decide)

end Unitpm.Logs
