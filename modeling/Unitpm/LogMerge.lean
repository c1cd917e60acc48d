import Unitpm.LogStreams
import Unitpm.LogTail
import Unitpm.Lib.Merge
import Mathlib.Data.Int.ConditionallyCompleteOrder
import Mathlib.Data.List.ReduceOption
import Mathlib.Data.Prod.Lex
import Mathlib.Order.WithBot

/-! # Merging log files

`merge_by_ts` of `cli::commands::logs::merge` takes the earliest of the heads of several lists of
entries at a time, and the first of these where several are as early.  An entry without a timestamp
is later than every entry with one.

`bounded_tail` merges the last entries of each file, and `stream_merge` all of them. -/

namespace Unitpm.Logs

open Merging Utf8

/-! ### The merge -/

/-- `entry_order`. -/
def entryOrder (a b : Entry) : Ordering :=
  match a.tsUnix, b.tsUnix with
  | some x, some y =>
      match compare x y with
      | .eq => compare a.seq b.seq
      | other => other
  | some _, none => .lt
  | none, some _ => .gt
  | none, none => compare a.seq b.seq

section

variable (sources : List (List Entry))

/-- `sources[i][idx[i]]`, none at the end of the source. -/
def headAt (idx : List ℕ) (i : ℕ) : Option Entry :=
  sources[i]?.bind fun s => idx[i]?.bind fun k => s[k]?

/-- The body of the inner loop of `merge_by_ts`: the best source so far against source `i`. -/
def better (idx : List ℕ) (bestIdx : Option ℕ) (i : ℕ) : Option ℕ :=
  match headAt sources idx i with
  | none => bestIdx
  | some a =>
      match bestIdx with
      | none => some i
      | some j =>
          match headAt sources idx j with
          | some b => if entryOrder a b = .lt then some i else some j
          | none => some j

/-- The inner loop of `merge_by_ts`: the source with the earliest head. -/
def earliest (idx : List ℕ) : Option ℕ :=
  (List.range sources.length).foldl (better sources idx) none

/-- The outer loop of `merge_by_ts`, with a bound on its rounds. -/
def mergeRounds : ℕ → List ℕ → List Entry
  | 0, _ => []
  | n + 1, idx =>
      match earliest sources idx with
      | none => []
      | some i =>
          (headAt sources idx i).toList ++ mergeRounds n (idx.modify i (· + 1))

/-- `merge_by_ts`.  Every round but the last takes an entry, so `total` rounds are enough. -/
def mergeByTs : List Entry :=
  let total := (sources.map List.length).sum
  mergeRounds sources total (List.replicate sources.length 0)

end

/-! ### The order of entries -/

/-- A timestamp as entries are ordered by it: none comes after all others. -/
def mergeTime (t : Option ℤ) : WithTop ℤ := t

/-- What entries are ordered by. -/
def mergeKey (e : Entry) : WithTop ℤ ×ₗ ℕ := toLex (mergeTime e.tsUnix, e.seq)

theorem mergeTime_some_lt (x y : ℤ) : mergeTime (some x) < mergeTime (some y) ↔ x < y :=
  WithTop.coe_lt_coe

theorem mergeTime_some_lt_none (x : ℤ) : mergeTime (some x) < mergeTime none :=
  WithTop.coe_lt_top x

theorem mergeKey_lt_iff (a b : Entry) :
    mergeKey a < mergeKey b ↔
      mergeTime a.tsUnix < mergeTime b.tsUnix ∨ a.tsUnix = b.tsUnix ∧ a.seq < b.seq :=
  Prod.Lex.toLex_lt_toLex

theorem mergeKey_le_iff (a b : Entry) :
    mergeKey a ≤ mergeKey b ↔
      mergeTime a.tsUnix < mergeTime b.tsUnix ∨ a.tsUnix = b.tsUnix ∧ a.seq ≤ b.seq :=
  Prod.Lex.toLex_le_toLex

theorem entryOrder_lt_iff (a b : Entry) : entryOrder a b = .lt ↔ mergeKey a < mergeKey b := by
  rw [mergeKey_lt_iff]
  unfold entryOrder
  cases ha : a.tsUnix with
  | none =>
      cases hb : b.tsUnix with
      | none => simp [compare_lt_iff_lt]
      | some y =>
          have h : ¬ mergeTime none < mergeTime (some y) := (mergeTime_some_lt_none y).not_gt
          simp [h]
  | some x =>
      cases hb : b.tsUnix with
      | none => simp [mergeTime_some_lt_none]
      | some y =>
          simp only [mergeTime_some_lt, Option.some.injEq]
          rcases lt_trichotomy x y with hlt | rfl | hgt
          · simp [compare_lt_iff_lt.2 hlt, hlt]
          · simp [compare_lt_iff_lt]
          · simp [compare_gt_iff_gt.2 hgt, hgt.not_gt, hgt.ne']

/-! ### A round -/

section

variable {sources : List (List Entry)} {idx : List ℕ}

/-- What is left of the sources. -/
def rests (sources : List (List Entry)) (idx : List ℕ) : List (List Entry) :=
  List.zipWith (fun s k => s.drop k) sources idx

theorem headAt_eq (i : ℕ) :
    headAt sources idx i = (rests sources idx)[i]?.bind List.head? := by
  rw [headAt, rests, List.getElem?_zipWith']
  cases sources[i]? with
  | none => rfl
  | some s => cases idx[i]? <;> simp [List.head?_drop]

/-- The best of the first `n` sources, by the heads that it is compared with. -/
theorem foldl_better (sources : List (List Entry)) (idx : List ℕ) (n : ℕ) :
    match (List.range n).foldl (better sources idx) none with
    | none => ∀ i < n, headAt sources idx i = none
    | some i => i < n ∧ ∃ e, headAt sources idx i = some e ∧
        ∀ j < n, ∀ e' ∈ headAt sources idx j,
          mergeKey e ≤ mergeKey e' ∧ (j < i → mergeKey e < mergeKey e') := by
  induction n with
  | zero => simp
  | succ n ih =>
      rw [List.range_succ, List.foldl_append, List.foldl_cons, List.foldl_nil]
      generalize (List.range n).foldl (better sources idx) none = best at ih
      cases hn : headAt sources idx n with
      | none =>
          have hb : better sources idx best n = best := by rw [better, hn]
          rw [hb]
          cases best with
          | none =>
              intro i hi
              rcases Nat.lt_succ_iff_lt_or_eq.1 hi with hi | rfl
              · exact ih i hi
              · exact hn
          | some i =>
              obtain ⟨hi, e, he, hleast⟩ := ih
              refine ⟨by omega, e, he, ?_⟩
              intro j hj e' he'
              rcases Nat.lt_succ_iff_lt_or_eq.1 hj with hj | rfl
              · exact hleast j hj e' he'
              · simp [hn] at he'
      | some a =>
          cases best with
          | none =>
              have hb : better sources idx none n = some n := by simp only [better, hn]
              rw [hb]
              refine ⟨by omega, a, hn, ?_⟩
              intro j hj e' he'
              rcases Nat.lt_succ_iff_lt_or_eq.1 hj with hj | rfl
              · simp [ih j hj] at he'
              · obtain rfl : a = e' := by simpa [hn] using he'
                exact ⟨le_rfl, fun h => absurd h (lt_irrefl j)⟩
          | some i =>
              obtain ⟨hi, e, he, hleast⟩ := ih
              have hb : better sources idx (some i) n =
                  if mergeKey a < mergeKey e then some n else some i := by
                simp only [better, hn, he, entryOrder_lt_iff]
              rw [hb]
              split_ifs with hlt
              · refine ⟨by omega, a, hn, ?_⟩
                intro j hj e' he'
                rcases Nat.lt_succ_iff_lt_or_eq.1 hj with hj | rfl
                · have := hlt.trans_le (hleast j hj e' he').1
                  exact ⟨this.le, fun _ => this⟩
                · obtain rfl : a = e' := by simpa [hn] using he'
                  exact ⟨le_rfl, fun h => absurd h (lt_irrefl j)⟩
              · refine ⟨by omega, e, he, ?_⟩
                intro j hj e' he'
                rcases Nat.lt_succ_iff_lt_or_eq.1 hj with hj | rfl
                · exact hleast j hj e' he'
                · obtain rfl : a = e' := by simpa [hn] using he'
                  exact ⟨not_lt.1 hlt, fun h => absurd h (by omega)⟩

theorem length_rests (hlen : idx.length = sources.length) :
    (rests sources idx).length = sources.length := by
  rw [rests, List.length_zipWith, hlen, min_self]

theorem headAt_of_rests {i : ℕ} {e : Entry} {s : List Entry}
    (h : (rests sources idx)[i]? = some (e :: s)) : headAt sources idx i = some e := by
  rw [headAt_eq, h]
  rfl

/-- No source is picked when all are at their ends. -/
theorem all_nil_of_earliest (hlen : idx.length = sources.length)
    (h : earliest sources idx = none) : ∀ s ∈ rests sources idx, s = [] := by
  have hall := foldl_better sources idx sources.length
  rw [earliest] at h
  rw [h] at hall
  intro s hs
  obtain ⟨i, hi⟩ := List.mem_iff_getElem?.1 hs
  cases s with
  | nil => rfl
  | cons e s =>
      have hlt : i < sources.length := by
        rw [← length_rests hlen]
        exact (List.getElem?_eq_some_iff.1 hi).1
      have hnone := hall i hlt
      rw [headAt_of_rests hi] at hnone
      cases hnone

/-- The source that is picked has the first of the least heads. -/
theorem picks_of_earliest (hlen : idx.length = sources.length) {i : ℕ}
    (h : earliest sources idx = some i) :
    ∃ e s, headAt sources idx i = some e ∧ Picks mergeKey (rests sources idx) i e s := by
  have hbest := foldl_better sources idx sources.length
  rw [earliest] at h
  rw [h] at hbest
  obtain ⟨-, e, he, hleast⟩ := hbest
  have hhead := he
  rw [headAt_eq, Option.bind_eq_some_iff] at hhead
  obtain ⟨u, hu, hue⟩ := hhead
  obtain ⟨s, rfl⟩ := List.head?_eq_some_iff.1 hue
  have hfound : ∀ (j : ℕ) (y : Entry) (t : List Entry), (rests sources idx)[j]? = some (y :: t) →
      mergeKey e ≤ mergeKey y ∧ (j < i → mergeKey e < mergeKey y) := by
    intro j y t hj
    have hlt : j < sources.length := by
      rw [← length_rests hlen]
      exact (List.getElem?_eq_some_iff.1 hj).1
    exact hleast j hlt y (headAt_of_rests hj)
  exact ⟨e, s, he, hu, fun j y t hj => (hfound j y t hj).1, fun j y t hj => (hfound j y t hj).2⟩

theorem rests_modify {i : ℕ} {e : Entry} {s : List Entry}
    (h : (rests sources idx)[i]? = some (e :: s)) :
    rests sources (idx.modify i (· + 1)) = (rests sources idx).set i s := by
  obtain ⟨u, k, hu, hk, hdrop⟩ := List.getElem?_zipWith_eq_some.1 h
  have hlt : i < (rests sources idx).length := (List.getElem?_eq_some_iff.1 h).1
  have hs : u.drop (k + 1) = s := by
    rw [← List.tail_drop, hdrop, List.tail_cons]
  refine List.ext_getElem? fun j => ?_
  rw [rests, List.getElem?_zipWith', List.getElem?_modify, List.getElem?_set]
  by_cases hij : i = j
  · subst hij
    simp [hu, hk, hs, hlt]
  · simp [hij, rests, List.getElem?_zipWith']

/-- The rounds carry out a merge of what is left, if there are enough of them. -/
theorem merges_mergeRounds {n : ℕ} (hlen : idx.length = sources.length)
    (hn : (rests sources idx).flatten.length ≤ n) :
    Merges mergeKey (rests sources idx) (mergeRounds sources n idx) := by
  induction n generalizing idx with
  | zero =>
      have hnil : (rests sources idx).flatten = [] :=
        List.length_eq_zero_iff.1 (Nat.le_zero.1 hn)
      exact .nil (List.flatten_eq_nil_iff.1 hnil)
  | succ n ih =>
      rw [mergeRounds]
      cases hb : earliest sources idx with
      | none => exact .nil (all_nil_of_earliest hlen hb)
      | some i =>
          obtain ⟨e, s, he, hp⟩ := picks_of_earliest hlen hb
          have hmod := rests_modify hp.at_source
          have hlen' : (idx.modify i (· + 1)).length = sources.length := by
            rw [List.length_modify, hlen]
          have hcount := (flatten_perm_cons hp.at_source).length_eq
          rw [List.length_cons] at hcount
          have hrest := ih hlen' (by rw [hmod]; omega)
          simp only [he, Option.toList_some, List.singleton_append]
          rw [hmod] at hrest
          exact .cons hp hrest

theorem rests_start (sources : List (List Entry)) :
    rests sources (List.replicate sources.length 0) = sources := by
  refine List.ext_getElem? fun j => ?_
  rw [rests, List.getElem?_zipWith', List.getElem?_replicate]
  split_ifs with hj
  · simp [hj]
  · simp [hj]

theorem merges_mergeByTs (sources : List (List Entry)) :
    Merges mergeKey sources (mergeByTs sources) := by
  have h : Merges mergeKey (rests sources (List.replicate sources.length 0))
      (mergeRounds sources (sources.map List.length).sum (List.replicate sources.length 0)) :=
    merges_mergeRounds (by simp) (by rw [rests_start, List.length_flatten])
  rwa [rests_start] at h

end

/-! ### What a merge gives -/

/-- Two entries with timestamps are in the order of `(ts, seq)`. -/
def TsSeqLe (a b : Entry) : Prop :=
  ∀ x ∈ a.tsUnix, ∀ y ∈ b.tsUnix, x < y ∨ x = y ∧ a.seq ≤ b.seq

instance (a b : Entry) : Decidable (TsSeqLe a b) :=
  inferInstanceAs (Decidable (∀ x ∈ a.tsUnix, ∀ y ∈ b.tsUnix, x < y ∨ x = y ∧ a.seq ≤ b.seq))

theorem tsSeqLe_of_mergeKey_le {a b : Entry} (h : mergeKey a ≤ mergeKey b) : TsSeqLe a b := by
  intro x hx y hy
  rw [mergeKey_le_iff, Option.mem_def.1 hx, Option.mem_def.1 hy, mergeTime_some_lt,
    Option.some.injEq] at h
  exact h

theorem mergeKey_le_of_tsSeqLe {a b : Entry} (ha : a.tsUnix.isSome) (hb : b.tsUnix.isSome)
    (h : TsSeqLe a b) : mergeKey a ≤ mergeKey b := by
  obtain ⟨x, hx⟩ := Option.isSome_iff_exists.1 ha
  obtain ⟨y, hy⟩ := Option.isSome_iff_exists.1 hb
  rw [mergeKey_le_iff, hx, hy, mergeTime_some_lt, Option.some.injEq]
  exact h x hx y hy

theorem sorted_of_tsSeqLe {l : List Entry} (hts : ∀ e ∈ l, e.tsUnix.isSome)
    (h : l.Pairwise TsSeqLe) : Sorted mergeKey l :=
  h.imp_of_mem fun ha hb hab => mergeKey_le_of_tsSeqLe (hts _ ha) (hts _ hb) hab

/-- The merge is an interleaving of the sources, and sorted if they are. -/
theorem mergeByTs_spec (sources : List (List Entry)) :
    Interleaves sources (mergeByTs sources) ∧
    (mergeByTs sources).Perm sources.flatten ∧
    (∀ s ∈ sources, s.Sublist (mergeByTs sources)) ∧
    ((∀ s ∈ sources, ∀ e ∈ s, e.tsUnix.isSome) → (∀ s ∈ sources, s.Pairwise TsSeqLe) →
      (mergeByTs sources).Pairwise TsSeqLe) := by
  have h := merges_mergeByTs sources
  refine ⟨h.interleaves, h.interleaves.perm, h.interleaves.sublist, ?_⟩
  intro hts hs
  have hsorted := h.sorted fun s hmem => sorted_of_tsSeqLe (hts s hmem) (hs s hmem)
  exact hsorted.imp fun hab => tsSeqLe_of_mergeKey_le hab

/-- Two sources with entries at one time. -/
def ties : List (List Entry) :=
  [[⟨some 1, "STDOUT", "a".toList, 0, true⟩, ⟨some 2, "STDOUT", "b".toList, 1, true⟩],
    [⟨some 1, "STDERR", "c".toList, 0, true⟩, ⟨some 2, "STDERR", "d".toList, 1, true⟩]]

theorem mergeByTs_ties : (mergeByTs ties).Pairwise TsSeqLe :=
  (mergeByTs_spec ties).2.2.2 (by decide) (by decide)

/-! ### Reading the files -/

/-- `Filter`, with a regular expression as the bodies that it matches. -/
structure Filter where
  since : Option ℤ
  grep : Option (List Char → Bool)

/-- `Filter::default`. -/
def Filter.default : Filter := ⟨none, none⟩

/-- `Filter::keep`. -/
def Filter.keep (fs : Filter) (e : Entry) : Bool :=
  let recent :=
    match fs.since with
    | none => true
    | some cutoff =>
        match e.tsUnix with
        | some ts => ¬ ts < cutoff
        | none => false
  recent &&
    match fs.grep with
    | some re => re e.body
    | none => true

/-- What opening a log file gives. -/
inductive LogFile where
  | notFound
  | failed
  | content (bytes : List UInt8)

/-- Why no merged log is written. -/
inductive StreamError where
  | io
  | read (e : ReadError)
deriving DecidableEq

/-- The loop over the sources of `bounded_tail` and `stream_merge`, with the reader of a file. -/
def loadSources (read : String → List UInt8 → ℕ → Except ReadError (List Entry × ℕ))
    (files : String → LogFile) : List StreamSource → ℕ → Except StreamError (List (List Entry))
  | [], _ => .ok []
  | s :: sources, seq =>
      match files s.path with
      | .notFound => loadSources read files sources seq
      | .failed => .error .io
      | .content bytes =>
          match read s.label bytes seq with
          | .error e => .error (.read e)
          | .ok (entries, nextSeq) =>
              (loadSources read files sources nextSeq).map (entries :: ·)

/-- `format_entries`: the entries that are written. -/
def formatEntries (entries : List Entry) (fs : Filter) : List Entry := entries.filter fs.keep

/-- The last `n` entries of a merge. -/
def trim (n : ℕ) (merged : List Entry) : List Entry :=
  if n < merged.length then merged.drop (merged.length - n) else merged

section

variable (localtimeOffset : ℤ → ℤ) (files : String → LogFile)

/-- `bounded_tail`. -/
def boundedTail (sources : List StreamSource) (n : ℕ) (fs : Filter) :
    Except StreamError (List Entry) :=
  let read := fun label bytes seq => readLastNEntries localtimeOffset label bytes n seq
  (loadSources read files sources 0).map fun all => formatEntries (trim n (mergeByTs all)) fs

/-- `stream_merge`. -/
def streamMerge (fs : Filter) (sources : List StreamSource) : Except StreamError (List Entry) :=
  (loadSources (readText localtimeOffset) files sources 0).map fun all =>
    formatEntries (mergeByTs all) fs

end

/-! ### The last entries of a merge -/

theorem trim_eq_rtake (n : ℕ) (l : List Entry) : trim n l = l.rtake n := by
  rw [trim]
  split_ifs with h
  · rfl
  · exact (rtake_of_length_le (not_lt.1 h)).symm

/-- Of sorted sources, the last entries of the merge are those of a merge of the last entries of
each source, and these are what `bounded_tail` writes if it has read the last entries of each. -/
theorem boundedTail_sound (off : ℤ → ℤ) (files : String → LogFile) (n : ℕ)
    (sources : List (List Entry)) (hts : ∀ s ∈ sources, ∀ e ∈ s, e.tsUnix.isSome)
    (hs : ∀ s ∈ sources, s.Pairwise TsSeqLe) :
    (mergeByTs sources).rtake n = (mergeByTs (sources.map fun s => s.rtake n)).rtake n ∧
      ∀ (logs : List StreamSource) (fs : Filter),
        loadSources (fun label bytes seq => readLastNEntries off label bytes n seq) files logs 0 =
            .ok (sources.map fun s => s.rtake n) →
          boundedTail off files logs n fs =
            .ok (formatEntries ((mergeByTs sources).rtake n) fs) := by
  have hlast :
      (mergeByTs sources).rtake n = (mergeByTs (sources.map fun s => s.rtake n)).rtake n := by
    have hcut : List.Forall₂ (Cut n) sources (sources.map fun s => s.rtake n) := by
      rw [List.forall₂_map_right_iff, List.forall₂_same]
      exact fun s _ => cut_rtake n s
    refine (merges_mergeByTs sources).rtake_eq (merges_mergeByTs _) ?_ hcut
    exact fun s hmem => sorted_of_tsSeqLe (hts s hmem) (hs s hmem)
  refine ⟨hlast, ?_⟩
  intro logs fs hload
  rw [boundedTail, hload, hlast, ← trim_eq_rtake]
  rfl

/-- Two log files of a process. -/
def twoLogs (out err : String) : String → LogFile := fun path =>
  if path = "out.log" then .content (encode out.toList) else .content (encode err.toList)

def twoSources : List StreamSource :=
  [{ path := "out.log", label := "STDOUT" }, { path := "err.log", label := "STDERR" }]

/-- Two files with two entries each, the last ones at one time. -/
def tiedLogs : String → LogFile :=
  twoLogs "2026-01-01 00:00:01 up\n2026-01-01 00:00:03 ready"
    "2026-01-01 00:00:02 warn\n2026-01-01 00:00:03 late"

/-- Their entries. -/
def tiedEntries : List (List Entry) :=
  [[⟨some 1767225601, "STDOUT", "up".toList, 0, true⟩,
      ⟨some 1767225603, "STDOUT", "ready".toList, 1, true⟩],
    [⟨some 1767225602, "STDERR", "warn".toList, 2, true⟩,
      ⟨some 1767225603, "STDERR", "late".toList, 3, true⟩]]

theorem boundedTail_tied :
    (mergeByTs tiedEntries).rtake 1 =
        (mergeByTs (tiedEntries.map fun s => s.rtake 1)).rtake 1 ∧
      boundedTail (fun _ => 0) tiedLogs twoSources 1 .default =
        .ok [⟨some 1767225603, "STDERR", "late".toList, 3, true⟩] := by
  have hread : loadSources (fun label bytes seq => readLastNEntries (fun _ => 0) label bytes 1 seq)
      tiedLogs twoSources 0 = .ok (tiedEntries.map fun s => s.rtake 1) := by decide +kernel
  obtain ⟨hlast, htail⟩ := boundedTail_sound (fun _ => 0) tiedLogs 1 tiedEntries (by decide)
    (by decide)
  refine ⟨hlast, (htail twoSources .default hread).trans ?_⟩
  decide +kernel

end Unitpm.Logs
