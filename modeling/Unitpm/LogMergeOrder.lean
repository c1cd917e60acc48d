import Unitpm.LogMerge

/-! # The order of a merged log

`stream_merge` reads each file and merges what it has read.  Text before the first timestamp of a
file is an entry without a timestamp, and this is later than all entries with one: the file waits
until the files without such text are at their ends, and then the waiting files follow one another.
`streamMerge_ordered_iff` says for which files the result is in the order of time all the same. -/

namespace Unitpm.Logs

open Merging Utf8

/-! ### The timestamps of a file -/

/-- The timestamp of the entry that begins at the first of some lines. -/
def startTime (off : ℤ → ℤ) : List (List Char) → Option ℤ
  | [] => none
  | line :: rest => (opened off "" line rest).tsUnix

/-- The timestamps of a text, after a `none` if there is text before the first of them. -/
def textTimes (off : ℤ → ℤ) (text : List Char) : Except Panic (List (Option ℤ)) :=
  (starts off 0 false (text.splitOn '\n')).map (List.map (startTime off))

/-- The timestamps of a file. -/
def fileTimes (off : ℤ → ℤ) (bytes : List UInt8) : Except ReadError (List (Option ℤ)) :=
  match decode bytes with
  | none => .error .invalidData
  | some text =>
      match textTimes off text with
      | .error p => .error (.panic p)
      | .ok ts => .ok ts

/-- The timestamps of the files that are there. -/
def logTimes (off : ℤ → ℤ) (files : String → LogFile) :
    List StreamSource → Except StreamError (List (List (Option ℤ)))
  | [] => .ok []
  | s :: sources =>
      match files s.path with
      | .notFound => logTimes off files sources
      | .failed => .error .io
      | .content bytes =>
          match fileTimes off bytes with
          | .error e => .error (.read e)
          | .ok ts => (logTimes off files sources).map (ts :: ·)

/-- There is text before the first timestamp. -/
def headText (ts : List (Option ℤ)) : Bool := ts.head? = some none

/-- Every timestamp of one file is at or before every timestamp of another. -/
def Before (ts us : List (Option ℤ)) : Prop :=
  ∀ t ∈ ts.reduceOption, ∀ u ∈ us.reduceOption, t ≤ u

instance (ts us : List (Option ℤ)) : Decidable (Before ts us) :=
  inferInstanceAs (Decidable (∀ t ∈ ts.reduceOption, ∀ u ∈ us.reduceOption, t ≤ u))

/-- No file that waits has a timestamp before one of a file it waits for. -/
def NotHeldBack (tss : List (List (Option ℤ))) : Prop :=
  (∀ ts ∈ tss, headText ts = false → ∀ us ∈ tss, headText us = true → Before ts us) ∧
    (tss.filter headText).Pairwise Before

instance (tss : List (List (Option ℤ))) : Decidable (NotHeldBack tss) :=
  inferInstanceAs (Decidable (_ ∧ _))

/-- `stream_merge` writes all entries of all files, those with timestamps in the order of time. -/
def WritesInOrder (off : ℤ → ℤ) (files : String → LogFile) (sources : List StreamSource) : Prop :=
  ∃ all written, loadSources (readText off) files sources 0 = .ok all ∧
    streamMerge off files .default sources = .ok written ∧ written.Perm all.flatten ∧
    (written.filterMap Entry.tsUnix).Pairwise (· ≤ ·)

/-! ### What is read of a file -/

/-- What an entry is merged by. -/
def Entry.stamp (e : Entry) : Option ℤ × ℕ := (e.tsUnix, e.seq)

/-- Timestamps with numbers from `seq` on. -/
def numberFrom (seq : ℕ) : List (Option ℤ) → List (Option ℤ × ℕ)
  | [] => []
  | t :: ts => (t, seq) :: numberFrom (seq + 1) ts

/-- The timestamps of several files with numbers from `seq` on. -/
def numberFiles (seq : ℕ) : List (List (Option ℤ)) → List (List (Option ℤ × ℕ))
  | [] => []
  | ts :: tss => numberFrom seq ts :: numberFiles (seq + ts.length) tss

theorem map_fst_numberFrom (seq : ℕ) (ts : List (Option ℤ)) :
    (numberFrom seq ts).map Prod.fst = ts := by
  induction ts generalizing seq with
  | nil => rfl
  | cons t ts ih => rw [numberFrom, List.map_cons, ih]

theorem snd_of_mem_numberFrom {seq : ℕ} {ts : List (Option ℤ)} {p : Option ℤ × ℕ}
    (h : p ∈ numberFrom seq ts) : seq ≤ p.2 ∧ p.2 < seq + ts.length := by
  induction ts generalizing seq with
  | nil => simp [numberFrom] at h
  | cons t ts ih =>
      rw [numberFrom, List.mem_cons] at h
      rw [List.length_cons]
      rcases h with rfl | h
      · exact ⟨le_rfl, by omega⟩
      · have := ih h
        omega

section

variable {off : ℤ → ℤ} {label : String} {seq skip : ℕ} {ls : List (List Char)} {out : List Entry}

theorem tsUnix_opened (off : ℤ → ℤ) (label : String) (line : List Char)
    (rest : List (List Char)) :
    (opened off label line rest).tsUnix = startTime off (line :: rest) := by
  rw [startTime, opened, opened, bannerAt_eq off label]
  cases bannerAt off "" line rest 0 with
  | error p => cases parseLine off line with
      | error p => rfl
      | ok o => cases o <;> rfl
  | ok b =>
      cases b with
      | some e => rfl
      | none => cases parseLine off line with
          | error p => rfl
          | ok o => cases o <;> rfl

/-- The entries that are read have the timestamps of the lines they begin at, and are numbered in
their order. -/
theorem readFrom_stamps {inside : Bool} (hin : inside = false ↔ out = []) :
    (readFrom off label skip ls out seq).map (fun r => (r.1.map Entry.stamp, r.2)) =
      (starts off skip inside ls).map fun ws =>
        (out.map Entry.stamp ++ numberFrom seq (ws.map (startTime off)), seq + ws.length) := by
  induction skip, inside, ls using reading_induction off generalizing out seq with
  | done skip inside => cases skip <;> simp [readFrom, starts, Except.map, numberFrom]
  | taken skip inside line rest ih => exact ih hin
  | blank inside rest ih =>
      rw [readFrom, if_pos rfl, starts, if_pos rfl]
      exact ih hin
  | panics inside line rest p hl hk =>
      rw [readFrom_panic hl hk, starts_panic hl hk]
      rfl
  | opens inside line rest k hl hk ht ih =>
      rw [readFrom_open hl hk fun h => hin.1 (ht h), starts_open hl hk ht, ih (by simp)]
      cases starts off k.taken true rest with
      | error p => rfl
      | ok ws =>
          have hstamp : ((opened off label line rest).numbered seq).stamp =
              (startTime off (line :: rest), seq) := by
            rw [← tsUnix_opened off label]
            rfl
          simp only [Except.map, List.map_append, List.map_cons, List.map_nil, hstamp, numberFrom,
            List.append_assoc, List.singleton_append, List.length_cons, Except.ok.injEq,
            Prod.mk.injEq, true_and]
          omega
  | folds line rest hl hk ih =>
      have hne : out ≠ [] := fun h => by simpa using hin.2 h
      obtain ⟨o, e, rfl⟩ : ∃ o e, out = o ++ [e] :=
        ⟨_, _, (List.dropLast_append_getLast hne).symm⟩
      rw [readFrom_text hl hk, starts_fold hl hk, ih (by simp)]
      simp [Entry.stamp, Entry.fold]

theorem tsUnix_of_bannerAt {line : List Char} {rest : List (List Char)} {e : Entry}
    (h : bannerAt off label line rest seq = .ok (some e)) : e.tsUnix.isSome := by
  match rest, h with
  | mid :: rule2 :: _, h =>
      simp only [bannerAt] at h
      split_ifs at h with hr
      · rw [tryConsumeBanner] at h
        split_ifs at h with hrules
        · cases h
        · obtain ⟨t, -, he⟩ := andThen_eq_some_iff.mp h
          obtain rfl := Option.some.inj (Except.ok.inj he)
          rfl
      · cases h

/-- What begins with a line of text is the first entry or none. -/
theorem startTime_isSome {inside : Bool} {ws : List (List (List Char))}
    (h : starts off skip inside ls = .ok ws) :
    (inside = true → ∀ w ∈ ws, (startTime off w).isSome) ∧
      ∀ w ∈ ws.tail, (startTime off w).isSome := by
  induction skip, inside, ls using reading_induction off generalizing ws with
  | done skip inside =>
      obtain rfl : [] = ws := by cases skip <;> simpa [starts] using h
      simp
  | taken skip inside line rest ih => exact ih h
  | blank inside rest ih =>
      rw [starts, if_pos rfl] at h
      exact ih h
  | panics inside line rest p hl hk =>
      rw [starts_panic hl hk] at h
      cases h
  | opens inside line rest k hl hk ht ih =>
      rw [starts_open hl hk ht] at h
      obtain ⟨vs, hs, rfl⟩ := exists_of_map_eq_ok h
      have hvs := (ih hs).1 rfl
      refine ⟨?_, hvs⟩
      rintro rfl
      refine List.forall_mem_cons.2 ⟨?_, hvs⟩
      -- inside an entry only banners and headers begin one
      rw [startTime, opened]
      obtain ⟨q, he, -⟩ | ⟨e, he, hb⟩ | ⟨hb, ⟨q, he, -⟩ | ⟨ts, body, he, hp⟩ | ⟨he, -⟩⟩ :=
        lineKind_cases off line rest
      · cases he.symm.trans hk
      · rw [hb]
        exact tsUnix_of_bannerAt hb
      · cases he.symm.trans hk
      · rw [hb, hp]
        rfl
      · obtain rfl := Except.ok.inj (he.symm.trans hk)
        cases ht rfl
  | folds line rest hl hk ih =>
      rw [starts_fold hl hk] at h
      exact ih h

theorem readText_stamps (off : ℤ → ℤ) (label : String) (bytes : List UInt8) (seq : ℕ) :
    (readText off label bytes seq).map (fun r => (r.1.map Entry.stamp, r.2)) =
      (fileTimes off bytes).map fun ts => (numberFrom seq ts, seq + ts.length) := by
  rw [readText, fileTimes]
  cases decode bytes with
  | none => rfl
  | some text =>
      have hread : (readEntries off label text seq).map
          (fun r => (r.1.map Entry.stamp, r.2)) =
        (starts off 0 false (text.splitOn '\n')).map fun ws =>
          (numberFrom seq (ws.map (startTime off)), seq + ws.length) :=
        readFrom_stamps (by simp)
      simp only [textTimes]
      obtain ⟨p, hr, hs⟩ | ⟨r, ws, hr, hs, h⟩ := cases_of_map_eq_map hread
      · rw [hr, hs]
        rfl
      · rw [hr, hs]
        simp only [Except.map, List.length_map]
        exact congrArg Except.ok h

/-- The entries of the files, by what they are merged by. -/
theorem loadSources_stamps (off : ℤ → ℤ) (files : String → LogFile) (sources : List StreamSource)
    (seq : ℕ) :
    (loadSources (readText off) files sources seq).map (List.map (List.map Entry.stamp)) =
      (logTimes off files sources).map (numberFiles seq) := by
  induction sources generalizing seq with
  | nil => rfl
  | cons s sources ih =>
      rw [loadSources, logTimes]
      cases files s.path with
      | notFound => exact ih seq
      | failed => rfl
      | content bytes =>
          simp only
          obtain ⟨e, hr, hs⟩ | ⟨r, ts, hr, hs, h⟩ :=
            cases_of_map_eq_map (readText_stamps off s.label bytes seq)
          · rw [hr, hs]
            rfl
          · obtain ⟨hes, hseq⟩ := Prod.mk.inj h
            rw [hr, hs]
            simp only [hseq]
            obtain ⟨e, hl, ht⟩ | ⟨all, tss, hl, ht, hall⟩ :=
              cases_of_map_eq_map (ih (seq + ts.length))
            · rw [hl, ht]
              rfl
            · rw [hl, ht]
              simp only [Except.map, List.map_cons, numberFiles, hes, hall]

/-! ### The entries that are merged -/

/-- The entries of one file: all but the first have a timestamp, and they are in the order of time
and of their numbers. -/
structure FileEntries (s : List Entry) : Prop where
  timed : ∀ e ∈ s.tail, e.tsUnix.isSome
  ordered : (s.filterMap Entry.tsUnix).Pairwise (· ≤ ·)
  numbered : s.Pairwise fun a b => a.seq < b.seq

/-- The entries of several files, numbered one file after the other. -/
structure LogEntries (all : List (List Entry)) : Prop where
  files : ∀ s ∈ all, FileEntries s
  numbered : all.Pairwise fun s t => ∀ a ∈ s, ∀ b ∈ t, a.seq < b.seq

/-- The first entry has no timestamp. -/
def waits (s : List Entry) : Bool := headText (s.map Entry.tsUnix)

theorem waits_iff (s : List Entry) : waits s = true ↔ ∃ e t, s = e :: t ∧ e.tsUnix = none := by
  cases s with
  | nil => simp [waits, headText]
  | cons e t => simp [waits, headText]

theorem FileEntries.isSome_of_not_waits {s : List Entry} (h : FileEntries s)
    (hw : waits s = false) : ∀ e ∈ s, e.tsUnix.isSome := by
  cases s with
  | nil => simp
  | cons e t =>
      refine List.forall_mem_cons.2 ⟨?_, h.timed⟩
      rw [Option.isSome_iff_ne_none]
      intro he
      rw [(waits_iff (e :: t)).2 ⟨e, t, rfl, he⟩] at hw
      cases hw

theorem FileEntries.sorted {s : List Entry} (h : FileEntries s) (hw : waits s = false) :
    Sorted mergeKey s := by
  have hts := h.isSome_of_not_waits hw
  have htime := List.pairwise_filterMap.1 h.ordered
  refine List.Pairwise.imp_of_mem ?_ (htime.and h.numbered)
  intro a b ha hb hab
  obtain ⟨x, hx⟩ := Option.isSome_iff_exists.1 (hts a ha)
  obtain ⟨y, hy⟩ := Option.isSome_iff_exists.1 (hts b hb)
  rw [mergeKey_le_iff, hx, hy, mergeTime_some_lt, Option.some.injEq]
  rcases (hab.1 x hx y hy).lt_or_eq with hlt | heq
  · exact .inl hlt
  · exact .inr ⟨heq, hab.2.le⟩

theorem mergeKey_lt_of_isSome {a b : Entry} (ha : a.tsUnix.isSome) (hb : b.tsUnix = none) :
    mergeKey a < mergeKey b := by
  obtain ⟨x, hx⟩ := Option.isSome_iff_exists.1 ha
  rw [mergeKey_lt_iff, hx, hb]
  exact .inl (mergeTime_some_lt_none x)

/-- The files that do not wait, and those that do, each with nothing in place of the others. -/
def running (all : List (List Entry)) : List (List Entry) :=
  all.map fun s => if waits s = true then [] else s

def waiting (all : List (List Entry)) : List (List Entry) :=
  all.map fun s => if waits s = true then s else []

theorem zipWith_running_waiting (all : List (List Entry)) :
    List.zipWith (· ++ ·) (running all) (waiting all) = all := by
  rw [running, waiting, List.zipWith_map, List.zipWith_self]
  refine List.map_id'' (fun s => ?_) all
  split_ifs <;> simp

/-- The files that wait come after the merge of the others, one after the other. -/
theorem mergeByTs_waiting {all : List (List Entry)} (h : LogEntries all) :
    mergeByTs all = mergeByTs (running all) ++ (waiting all).flatten := by
  have hwaiting : Merges mergeKey (waiting all) (waiting all).flatten := by
    refine merges_flatten (List.pairwise_map.2 ?_)
    refine List.Pairwise.imp_of_mem ?_ h.numbered
    intro s t hs ht hst a ha b hb
    split_ifs at ha hb with hws hwt
    · obtain ⟨e, u, rfl, he⟩ := (waits_iff t).1 hwt
      obtain rfl : e = b := by simpa using hb
      cases hta : a.tsUnix with
      | none =>
          rw [mergeKey_lt_iff, hta, he]
          exact .inr ⟨rfl, hst a ha e List.mem_cons_self⟩
      | some x => exact mergeKey_lt_of_isSome (by rw [hta]; rfl) he
    · simp at hb
    · simp at ha
    · simp at ha
  have happend := (merges_mergeByTs (running all)).append hwaiting
    (by rw [running, waiting, List.length_map, List.length_map]) ?_
  · rw [zipWith_running_waiting] at happend
    exact (merges_mergeByTs all).unique happend
  · intro u hu a ha v hv b hb
    obtain ⟨s, hs, rfl⟩ := List.mem_map.1 hu
    obtain ⟨t, ht, rfl⟩ := List.mem_map.1 hv
    have hws : waits s = false := by
      by_contra hws
      simp [hws] at ha
    have hwt : waits t = true := by
      by_contra hwt
      simp [hwt] at hb
    simp only [hws, Bool.false_eq_true, if_false] at ha
    simp only [hwt, if_true] at hb
    obtain ⟨e, w, rfl, he⟩ := (waits_iff t).1 hwt
    obtain rfl : e = b := by simpa using hb
    exact mergeKey_lt_of_isSome ((h.files s hs).isSome_of_not_waits hws a ha) he

/-- The timestamps of entries in the order they are in. -/
def times (es : List Entry) : List ℤ := es.filterMap Entry.tsUnix

theorem reduceOption_map_tsUnix (es : List Entry) :
    (es.map Entry.tsUnix).reduceOption = times es := by
  rw [times, List.reduceOption, List.filterMap_map]
  rfl

theorem before_map_iff (s t : List Entry) :
    Before (s.map Entry.tsUnix) (t.map Entry.tsUnix) ↔ ∀ x ∈ times s, ∀ y ∈ times t, x ≤ y := by
  rw [Before, reduceOption_map_tsUnix, reduceOption_map_tsUnix]

theorem ordered_times_of_sorted {es : List Entry} (h : Sorted mergeKey es) :
    (times es).Pairwise (· ≤ ·) := by
  refine List.pairwise_filterMap.2 (h.imp ?_)
  intro a b hab x hx y hy
  rcases tsSeqLe_of_mergeKey_le hab x hx y hy with hlt | ⟨heq, -⟩
  · exact hlt.le
  · exact heq.le

theorem times_flatten_waiting (all : List (List Entry)) :
    times (waiting all).flatten = ((all.filter waits).map times).flatten := by
  rw [times, List.filterMap_flatten]
  induction all with
  | nil => rfl
  | cons s all ih =>
      rw [waiting, List.map_cons, List.map_cons, List.flatten_cons, ← waiting, ih]
      cases hs : waits s with
      | false => simp [hs]
      | true => simp [hs, times]

theorem mem_times_running {all : List (List Entry)} (t : ℤ) :
    t ∈ times (mergeByTs (running all)) ↔ ∃ s ∈ all, waits s = false ∧ t ∈ times s := by
  simp only [times, List.mem_filterMap]
  constructor
  · rintro ⟨e, he, ht⟩
    obtain ⟨u, hu, heu⟩ := ((merges_mergeByTs (running all)).interleaves.mem_iff e).1 he
    obtain ⟨s, hs, rfl⟩ := List.mem_map.1 hu
    split_ifs at heu with hw
    · simp at heu
    · exact ⟨s, hs, by simpa using hw, e, heu, ht⟩
  · rintro ⟨s, hs, hw, e, he, ht⟩
    refine ⟨e, ((merges_mergeByTs (running all)).interleaves.mem_iff e).2 ⟨s, ?_, he⟩, ht⟩
    exact List.mem_map.2 ⟨s, hs, by simp [hw]⟩

/-- The merge is in the order of time if and only if no file that waits is held back. -/
theorem ordered_mergeByTs_iff {all : List (List Entry)} (h : LogEntries all) :
    (times (mergeByTs all)).Pairwise (· ≤ ·) ↔ NotHeldBack (all.map (List.map Entry.tsUnix)) := by
  have hrunning : (times (mergeByTs (running all))).Pairwise (· ≤ ·) := by
    refine ordered_times_of_sorted ((merges_mergeByTs (running all)).sorted ?_)
    intro u hu
    obtain ⟨s, hs, rfl⟩ := List.mem_map.1 hu
    split_ifs with hw
    · exact List.Pairwise.nil
    · exact (h.files s hs).sorted (by simpa using hw)
  have hwaiting : ((all.filter waits).map times).flatten.Pairwise (· ≤ ·) ↔
      (all.filter waits).Pairwise fun s t => ∀ x ∈ times s, ∀ y ∈ times t, x ≤ y := by
    rw [List.pairwise_flatten, List.pairwise_map, and_iff_right]
    intro l hl
    obtain ⟨s, hs, rfl⟩ := List.mem_map.1 hl
    exact (h.files s (List.mem_filter.1 hs).1).ordered
  have hsplit : times (mergeByTs all) =
      times (mergeByTs (running all)) ++ ((all.filter waits).map times).flatten := by
    rw [mergeByTs_waiting h, ← times_flatten_waiting]
    exact List.filterMap_append
  rw [hsplit, List.pairwise_append, and_iff_right hrunning, hwaiting, and_comm, NotHeldBack,
    List.filter_map, List.pairwise_map]
  refine and_congr ?_ ?_
  · constructor
    · intro hcross ts hts hw us hus hwu
      obtain ⟨s, hs, rfl⟩ := List.mem_map.1 hts
      obtain ⟨t, ht, rfl⟩ := List.mem_map.1 hus
      rw [before_map_iff]
      intro x hx y hy
      refine hcross x ((mem_times_running x).2 ⟨s, hs, hw, hx⟩) y (List.mem_flatten.2 ?_)
      exact ⟨times t, List.mem_map.2 ⟨t, List.mem_filter.2 ⟨ht, hwu⟩, rfl⟩, hy⟩
    · intro hcross x hx y hy
      obtain ⟨s, hs, hw, hxs⟩ := (mem_times_running x).1 hx
      obtain ⟨l, hl, hyl⟩ := List.mem_flatten.1 hy
      obtain ⟨t, ht, rfl⟩ := List.mem_map.1 hl
      obtain ⟨htall, hwt⟩ := List.mem_filter.1 ht
      have := hcross _ (List.mem_map_of_mem hs) hw _ (List.mem_map_of_mem htall) hwt
      exact (before_map_iff s t).1 this x hxs y hyl
  · exact List.Pairwise.iff fun s t => (before_map_iff s t).symm

/-! ### The entries that are read -/

theorem pairwise_numberFrom (seq : ℕ) (ts : List (Option ℤ)) :
    (numberFrom seq ts).Pairwise fun p q => p.2 < q.2 := by
  induction ts generalizing seq with
  | nil => exact List.Pairwise.nil
  | cons t ts ih =>
      refine List.pairwise_cons.2 ⟨?_, ih (seq + 1)⟩
      intro p hp
      exact (snd_of_mem_numberFrom hp).1

theorem fileEntries_of_stamps {s : List Entry} {ts : List (Option ℤ)}
    (h : s.map Entry.stamp = numberFrom seq ts) (hts : ∀ t ∈ ts.tail, t.isSome)
    (hordered : ts.reduceOption.Pairwise (· ≤ ·)) :
    FileEntries s ∧ s.map Entry.tsUnix = ts := by
  have htimes : s.map Entry.tsUnix = ts := by
    rw [← map_fst_numberFrom seq ts, ← h, List.map_map]
    rfl
  refine ⟨⟨?_, ?_, ?_⟩, htimes⟩
  · intro e he
    refine hts e.tsUnix ?_
    rw [← htimes, ← List.map_tail]
    exact List.mem_map_of_mem he
  · rw [← htimes, reduceOption_map_tsUnix] at hordered
    exact hordered
  · have hpairs := pairwise_numberFrom seq ts
    rw [← h, List.pairwise_map] at hpairs
    exact hpairs

theorem le_of_mem_numberFiles {tss : List (List (Option ℤ))} {l : List (Option ℤ × ℕ)}
    (hl : l ∈ numberFiles seq tss) : ∀ p ∈ l, seq ≤ p.2 := by
  induction tss generalizing seq with
  | nil => simp [numberFiles] at hl
  | cons ts tss ih =>
      rw [numberFiles, List.mem_cons] at hl
      intro p hp
      rcases hl with rfl | hl
      · exact (snd_of_mem_numberFrom hp).1
      · exact (Nat.le_add_right seq ts.length).trans (ih hl p hp)

theorem logEntries_of_stamps {all : List (List Entry)} {tss : List (List (Option ℤ))}
    (h : all.map (List.map Entry.stamp) = numberFiles seq tss)
    (hts : ∀ ts ∈ tss, (∀ t ∈ ts.tail, t.isSome) ∧ ts.reduceOption.Pairwise (· ≤ ·)) :
    LogEntries all ∧ all.map (List.map Entry.tsUnix) = tss := by
  induction tss generalizing seq all with
  | nil =>
      obtain rfl : all = [] := by simpa [numberFiles] using h
      exact ⟨⟨by simp, List.Pairwise.nil⟩, rfl⟩
  | cons ts tss ih =>
      cases all with
      | nil => simp [numberFiles] at h
      | cons s all =>
          rw [numberFiles, List.map_cons, List.cons.injEq] at h
          obtain ⟨hhead, htail⟩ := List.forall_mem_cons.1 hts
          obtain ⟨hs, hstimes⟩ := fileEntries_of_stamps h.1 hhead.1 hhead.2
          obtain ⟨hall, halltimes⟩ := ih h.2 htail
          refine ⟨⟨List.forall_mem_cons.2 ⟨hs, hall.files⟩,
            List.pairwise_cons.2 ⟨?_, hall.numbered⟩⟩, by rw [List.map_cons, hstimes, halltimes]⟩
          intro t ht a ha b hb
          have hlt : a.seq < seq + ts.length :=
            (snd_of_mem_numberFrom (h.1 ▸ List.mem_map_of_mem ha : a.stamp ∈ _)).2
          have hmem : t.map Entry.stamp ∈ numberFiles (seq + ts.length) tss :=
            h.2 ▸ List.mem_map_of_mem ht
          have hge : seq + ts.length ≤ b.seq :=
            le_of_mem_numberFiles hmem b.stamp (List.mem_map_of_mem hb)
          omega

end

theorem of_mem_logTimes {off : ℤ → ℤ} {files : String → LogFile} {sources : List StreamSource}
    {tss : List (List (Option ℤ))} (h : logTimes off files sources = .ok tss)
    {ts : List (Option ℤ)} (hts : ts ∈ tss) :
    ∃ s ∈ sources, ∃ bytes, files s.path = .content bytes ∧ fileTimes off bytes = .ok ts := by
  induction sources generalizing tss with
  | nil =>
      obtain rfl := Except.ok.inj h
      simp at hts
  | cons s sources ih =>
      rw [logTimes] at h
      cases hf : files s.path with
      | notFound =>
          rw [hf] at h
          obtain ⟨s', hs', hrest⟩ := ih h hts
          exact ⟨s', List.mem_cons_of_mem s hs', hrest⟩
      | failed => rw [hf] at h; cases h
      | content bytes =>
          rw [hf] at h
          cases ht : fileTimes off bytes with
          | error e => simp only [ht] at h; cases h
          | ok us =>
              simp only [ht] at h
              cases hl : logTimes off files sources with
              | error e => rw [hl] at h; cases h
              | ok uss =>
                  rw [hl] at h
                  obtain rfl := Except.ok.inj h
                  rcases List.mem_cons.1 hts with rfl | hmem
                  · exact ⟨s, List.mem_cons_self, bytes, hf, ht⟩
                  · obtain ⟨s', hs', hrest⟩ := ih hl hmem
                    exact ⟨s', List.mem_cons_of_mem s hs', hrest⟩

theorem isSome_of_fileTimes {off : ℤ → ℤ} {bytes : List UInt8} {ts : List (Option ℤ)}
    (h : fileTimes off bytes = .ok ts) : ∀ t ∈ ts.tail, t.isSome := by
  rw [fileTimes] at h
  cases hd : decode bytes with
  | none => rw [hd] at h; cases h
  | some text =>
      simp only [hd, textTimes] at h
      cases hs : starts off 0 false (text.splitOn '\n') with
      | error p => rw [hs] at h; cases h
      | ok ws =>
          rw [hs] at h
          obtain rfl := Except.ok.inj h
          intro t ht
          rw [← List.map_tail] at ht
          obtain ⟨w, hw, rfl⟩ := List.mem_map.1 ht
          exact (startTime_isSome hs).2 w hw

theorem formatEntries_default (es : List Entry) : formatEntries es .default = es :=
  List.filter_eq_self.2 fun _ _ => rfl

/-- Of files with their timestamps in the order of time, `stream_merge` writes all entries, those
with timestamps in the order of time, if and only if all can be read and no file that waits is held
back. -/
theorem streamMerge_ordered_iff (off : ℤ → ℤ) (files : String → LogFile)
    (sources : List StreamSource)
    (hordered : ∀ s ∈ sources, ∀ bytes, files s.path = .content bytes →
      ∀ ts, fileTimes off bytes = .ok ts → ts.reduceOption.Pairwise (· ≤ ·)) :
    WritesInOrder off files sources ↔
      ∃ tss, logTimes off files sources = .ok tss ∧ NotHeldBack tss := by
  have hload := loadSources_stamps off files sources 0
  -- what is read has the timestamps of the files
  have hentries : ∀ all tss, logTimes off files sources = .ok tss →
      all.map (List.map Entry.stamp) = numberFiles 0 tss →
      ((times (mergeByTs all)).Pairwise (· ≤ ·) ↔ NotHeldBack tss) := by
    intro all tss htss hall
    obtain ⟨hlog, htimes⟩ := logEntries_of_stamps hall fun ts hts => by
      obtain ⟨s, hs, bytes, hf, hft⟩ := of_mem_logTimes htss hts
      exact ⟨isSome_of_fileTimes hft, hordered s hs bytes hf ts hft⟩
    rw [ordered_mergeByTs_iff hlog, htimes]
  obtain ⟨e, hl, ht⟩ | ⟨all, tss, hl, ht, hall⟩ := cases_of_map_eq_map hload
  · constructor
    · rintro ⟨all, _, hall, -⟩
      rw [hl] at hall
      cases hall
    · rintro ⟨tss, htss, -⟩
      rw [ht] at htss
      cases htss
  · have hwritten : streamMerge off files .default sources = .ok (mergeByTs all) := by
      rw [streamMerge, hl]
      simp only [Except.map, formatEntries_default]
    constructor
    · rintro ⟨all', written, hall', hw, -, hsorted⟩
      obtain rfl := Except.ok.inj (hwritten.symm.trans hw)
      exact ⟨tss, ht, (hentries all tss ht hall).1 hsorted⟩
    · rintro ⟨tss', htss', hheld⟩
      obtain rfl := Except.ok.inj (ht.symm.trans htss')
      exact ⟨all, mergeByTs all, hl, hwritten, (merges_mergeByTs all).interleaves.perm,
        (hentries all tss ht hall).2 hheld⟩

/-- A line without a timestamp, before a line that is earlier than all of the other file. -/
def heldBack : String → LogFile :=
  twoLogs "booting\n2026-01-01 00:00:01 up" "2026-01-01 00:00:02 late"

theorem heldBack_not_in_order :
    logTimes (fun _ => 0) heldBack twoSources =
        .ok [[none, some 1767225601], [some 1767225602]] ∧
      ¬ WritesInOrder (fun _ => 0) heldBack twoSources := by
  refine ⟨by decide +kernel, ?_⟩
  rintro ⟨_, written, -, hw, -, hsorted⟩
  have h : streamMerge (fun _ => 0) heldBack .default twoSources =
      .ok [⟨some 1767225602, "STDERR", "late".toList, 2, true⟩,
        ⟨none, "STDOUT", "booting".toList, 0, false⟩,
        ⟨some 1767225601, "STDOUT", "up".toList, 1, true⟩] := by decide +kernel
  obtain rfl := Except.ok.inj (h.symm.trans hw)
  exact absurd hsorted (by decide)

theorem waited_in_order :
    WritesInOrder (fun _ => 0)
      (twoLogs "booting\n2026-01-01 00:00:02 up" "2026-01-01 00:00:01 early") twoSources := by
  have hout : fileTimes (fun _ => 0) (encode "booting\n2026-01-01 00:00:02 up".toList) =
      .ok [none, some 1767225602] := by decide +kernel
  have herr : fileTimes (fun _ => 0) (encode "2026-01-01 00:00:01 early".toList) =
      .ok [some 1767225601] := by decide +kernel
  refine (streamMerge_ordered_iff (fun _ => 0) _ twoSources ?_).2
    ⟨[[none, some 1767225602], [some 1767225601]], by decide +kernel, by decide⟩
  intro s hs bytes hf ts hts
  rcases List.mem_cons.1 hs with rfl | hs
  · obtain rfl := LogFile.content.inj hf
    obtain rfl := Except.ok.inj (hout.symm.trans hts)
    decide
  · obtain rfl := List.mem_singleton.1 hs
    obtain rfl := LogFile.content.inj hf
    obtain rfl := Except.ok.inj (herr.symm.trans hts)
    decide

end Unitpm.Logs
