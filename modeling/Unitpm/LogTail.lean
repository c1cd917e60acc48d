import Unitpm.LogLines
import Unitpm.Lib.Frames

/-! # The last entries of a log file

`read_last_n_entries` does not read the whole file: it guesses how many bytes the last entries take,
reads from there on, and tries a larger window if it finds too few.  The entries of a window need
not be those of the file: it may begin in a character, in an entry or in a banner.

`starts` are the lines at which entries begin.  From such a line on, a reader finds what it finds in
the file (`drop_readOn`), and as every line of the text is in one entry (`lineCount_readOn`), the
last entries of a window are those of the file only if the first of them begins there
(`lastEntries_eq_iff`).  `readsLast_iff` says what follows for the four attempts. -/

namespace Unitpm.Logs

open Rust.Str Utf8 Frames

/-! ### Reading from a window -/

/-- Why a read returns no entries. -/
inductive ReadError where
  | invalidData
  | panic (p : Panic)
deriving DecidableEq

/-- `saturating_mul` of two `u64`. -/
def saturatingMul (a b : ℕ) : ℕ := min (a * b) (2 ^ 64 - 1)

/-- `read_line`, for its effect: what follows the line, `none` if there is no line. -/
def skipLine (b : List UInt8) : Except ReadError (Option (List UInt8)) :=
  if b = [] then .ok none
  else
    match decode (cut lineFeed b).1 with
    | none => .error .invalidData
    | some _ => .ok (some (cut lineFeed b).2)

section

variable (localtimeOffset : ℤ → ℤ) (label : String)

/-- `read_to_string` and `read_entries`. -/
def readText (b : List UInt8) (seq : ℕ) : Except ReadError (List Entry × ℕ) :=
  match decode b with
  | none => .error .invalidData
  | some text =>
      match readEntries localtimeOffset label text seq with
      | .error p => .error (.panic p)
      | .ok r => .ok r

/-- Entries with those before the last `n` drained. -/
def keepLast (n : ℕ) (r : List Entry × ℕ) : List Entry × ℕ := (r.1.drop (r.1.length - n), r.2)

/-- The loop of `read_last_n_entries`, with the number of attempts that are left, and the read of
the whole file behind it. -/
def readAttempts (file : List UInt8) (n : ℕ) :
    ℕ → ℕ → ℕ → Except ReadError (List Entry × ℕ)
  | 0, _, seq => (readText localtimeOffset label file seq).map (keepLast n)
  | k + 1, guess, seq =>
      let target := if file.length < guess then file.length else guess
      let tail := file.drop (file.length - target)
      match if target < file.length then skipLine tail else .ok (some tail) with
      | .error e => .error e
      | .ok none => .ok ([], seq)
      | .ok (some body) =>
          match readText localtimeOffset label body seq with
          | .error e => .error e
          | .ok r =>
              if n ≤ r.1.length ∨ file.length ≤ guess then .ok (keepLast n r)
              else
                let next := saturatingMul guess 4
                readAttempts file n k (if file.length < next then file.length else next) r.2

/-- `read_last_n_entries`. -/
def readLastNEntries (file : List UInt8) (n startSeq : ℕ) :
    Except ReadError (List Entry × ℕ) :=
  if file = [] then .ok ([], startSeq)
  else readAttempts localtimeOffset label file n 4 (saturatingMul n 200) startSeq

end

/-! ### Where entries begin -/

/-- The kinds of lines in the eyes of `read_entries`: the first of a banner, a header, or a line of
text. -/
inductive LineKind where
  | banner
  | header
  | text
deriving DecidableEq

/-- What a line is that is not empty, with the lines behind it. -/
def lineKind (localtimeOffset : ℤ → ℤ) (line : List Char) (rest : List (List Char)) :
    Except Panic LineKind :=
  match bannerAt localtimeOffset "" line rest 0 with
  | .error p => .error p
  | .ok (some _) => .ok .banner
  | .ok none =>
      match parseLine localtimeOffset line with
      | .error p => .error p
      | .ok (some _) => .ok .header
      | .ok none => .ok .text

/-- The lines that a banner takes behind its first. -/
def LineKind.taken : LineKind → ℕ
  | .banner => 2
  | _ => 0

/-- The lines at which entries begin, each with all that follow it: banners, headers, and a line of
text that is `inside` no entry. -/
def starts (localtimeOffset : ℤ → ℤ) :
    ℕ → Bool → List (List Char) → Except Panic (List (List (List Char)))
  | _, _, [] => .ok []
  | skip + 1, inside, _ :: rest => starts localtimeOffset skip inside rest
  | 0, inside, line :: rest =>
      if line = [] then starts localtimeOffset 0 inside rest
      else
        match lineKind localtimeOffset line rest with
        | .error p => .error p
        | .ok k =>
            if k = .text ∧ inside = true then starts localtimeOffset 0 true rest
            else (starts localtimeOffset k.taken true rest).map ((line :: rest) :: ·)

/-! ### One step of the reader -/

section

variable {off : ℤ → ℤ} {label : String} {skip seq n : ℕ} {line : List Char}
  {rest ls : List (List Char)} {out : List Entry} {k : LineKind} {p : Panic}

/-- An entry with a number. -/
def Entry.numbered (seq : ℕ) (e : Entry) : Entry := { e with seq := seq }

/-- The entry that begins at a line. -/
def opened (off : ℤ → ℤ) (label : String) (line : List Char) (rest : List (List Char)) : Entry :=
  match bannerAt off label line rest 0 with
  | .ok (some e) => e
  | _ =>
      match parseLine off line with
      | .ok (some (ts, body)) => ⟨some ts, label, body, 0, true⟩
      | _ => ⟨none, label, line, 0, false⟩

theorem bannerAt_eq (off : ℤ → ℤ) (label : String) (line : List Char) (rest : List (List Char))
    (seq : ℕ) :
    bannerAt off label line rest seq =
      (bannerAt off "" line rest 0).map
        (Option.map fun e => ⟨e.tsUnix, label, e.body, seq, e.hasTs⟩) := by
  match rest with
  | [] => rfl
  | [_] => rfl
  | mid :: rule2 :: _ =>
      simp only [bannerAt, tryConsumeBanner]
      split_ifs
      · rfl
      · cases parseBannerMiddle off mid with
        | error p => rfl
        | ok o => cases o <;> rfl
      · rfl

/-- What a line is, by what the reader finds out about it. -/
theorem lineKind_cases (off : ℤ → ℤ) (line : List Char) (rest : List (List Char)) :
    (∃ p, lineKind off line rest = .error p ∧ bannerAt off "" line rest 0 = .error p) ∨
    (∃ e, lineKind off line rest = .ok .banner ∧ bannerAt off "" line rest 0 = .ok (some e)) ∨
    (bannerAt off "" line rest 0 = .ok none ∧
      ((∃ p, lineKind off line rest = .error p ∧ parseLine off line = .error p) ∨
        (∃ ts body, lineKind off line rest = .ok .header ∧
          parseLine off line = .ok (some (ts, body))) ∨
        (lineKind off line rest = .ok .text ∧ parseLine off line = .ok none))) := by
  cases hb : bannerAt off "" line rest 0 with
  | error p => exact Or.inl ⟨p, by rw [lineKind, hb], rfl⟩
  | ok o =>
      refine Or.inr ?_
      cases o with
      | some e => exact Or.inl ⟨e, by rw [lineKind, hb], rfl⟩
      | none =>
          refine Or.inr ⟨rfl, ?_⟩
          cases hp : parseLine off line with
          | error p => exact Or.inl ⟨p, by rw [lineKind, hb, hp], rfl⟩
          | ok r =>
              refine Or.inr ?_
              cases r with
              | some q => exact Or.inl ⟨q.1, q.2, by rw [lineKind, hb, hp], rfl⟩
              | none => exact Or.inr ⟨by rw [lineKind, hb, hp], rfl⟩

theorem readFrom_panic (hl : line ≠ []) (h : lineKind off line rest = .error p) :
    readFrom off label 0 (line :: rest) out seq = .error p := by
  rw [readFrom, if_neg hl, bannerAt_eq]
  obtain ⟨q, hk, hb⟩ | ⟨e, hk, -⟩ | ⟨hb, ⟨q, hk, hp⟩ | ⟨ts, body, hk, -⟩ | ⟨hk, -⟩⟩ :=
    lineKind_cases off line rest
  · obtain rfl : q = p := Except.error.inj (hk.symm.trans h)
    rw [hb]
    rfl
  · cases hk.symm.trans h
  · obtain rfl : q = p := Except.error.inj (hk.symm.trans h)
    simp only [hb, Except.map, Option.map_none, takeLine, hp]
  · cases hk.symm.trans h
  · cases hk.symm.trans h

theorem readFrom_open (hl : line ≠ []) (h : lineKind off line rest = .ok k)
    (hk : k = .text → out = []) :
    readFrom off label 0 (line :: rest) out seq =
      readFrom off label k.taken rest (out ++ [(opened off label line rest).numbered seq])
        (seq + 1) := by
  rw [readFrom, if_neg hl, bannerAt_eq off label line rest seq, opened,
    bannerAt_eq off label line rest 0]
  obtain ⟨q, he, -⟩ | ⟨e, he, hb⟩ | ⟨hb, ⟨q, he, -⟩ | ⟨ts, body, he, hp⟩ | ⟨he, hp⟩⟩ :=
    lineKind_cases off line rest
  · cases he.symm.trans h
  · obtain rfl := Except.ok.inj (he.symm.trans h)
    rw [hb]
    rfl
  · cases he.symm.trans h
  · obtain rfl := Except.ok.inj (he.symm.trans h)
    simp [hb, Except.map, takeLine, hp, LineKind.taken, Entry.numbered]
  · obtain rfl := Except.ok.inj (he.symm.trans h)
    obtain rfl := hk rfl
    simp [hb, Except.map, takeLine, hp, LineKind.taken, Entry.numbered]

theorem readFrom_text {o : List Entry} {e : Entry} (hl : line ≠ [])
    (h : lineKind off line rest = .ok .text) :
    readFrom off label 0 (line :: rest) (o ++ [e]) seq =
      readFrom off label 0 rest (o ++ [e.fold line]) seq := by
  obtain ⟨q, he, -⟩ | ⟨_, he, -⟩ | ⟨hb, ⟨q, he, -⟩ | ⟨ts, body, he, -⟩ | ⟨-, hp⟩⟩ :=
    lineKind_cases off line rest
  · cases he.symm.trans h
  · cases he.symm.trans h
  · cases he.symm.trans h
  · cases he.symm.trans h
  · exact readFrom_fold hl (by rw [bannerAt_eq, hb]; rfl) hp

/-! ### The reader without its accumulator -/

/-- An entry up to its number. -/
def Entry.unnumbered (e : Entry) : Entry := e.numbered 0

theorem unnumbered_opened (seq : ℕ) :
    ((opened off label line rest).numbered seq).unnumbered = opened off label line rest := by
  rw [opened, bannerAt_eq]
  split
  · rename_i e he
    cases hb : bannerAt off "" line rest 0 with
    | error p => simp [hb, Except.map] at he
    | ok o =>
        rw [hb] at he
        obtain ⟨e', -, rfl⟩ := Option.map_eq_some_iff.mp (Except.ok.inj he)
        rfl
  · split <;> rfl

/-- What the reader adds to its entries, up to their numbers, when the last of them is `cur`. -/
def readOn (off : ℤ → ℤ) (label : String) :
    ℕ → Option Entry → List (List Char) → Except Panic (List Entry)
  | _, cur, [] => .ok cur.toList
  | skip + 1, cur, _ :: rest => readOn off label skip cur rest
  | 0, cur, line :: rest =>
      if line = [] then readOn off label 0 cur rest
      else
        match lineKind off line rest with
        | .error p => .error p
        | .ok k =>
            match if k = .text then cur else none with
            | some e => readOn off label 0 (some (e.fold line)) rest
            | none =>
                (readOn off label k.taken (some (opened off label line rest)) rest).map
                  (cur.toList ++ ·)

theorem readOn_open {cur : Option Entry} (hl : line ≠ []) (h : lineKind off line rest = .ok k)
    (hk : k = .text → cur = none) :
    readOn off label 0 cur (line :: rest) =
      (readOn off label k.taken (some (opened off label line rest)) rest).map
        (cur.toList ++ ·) := by
  have hno : (if k = .text then cur else none) = none := by
    split_ifs with ht
    · exact hk ht
    · rfl
  rw [readOn, if_neg hl, h]
  simp only [hno]

theorem readOn_fold {e : Entry} (hl : line ≠ []) (h : lineKind off line rest = .ok .text) :
    readOn off label 0 (some e) (line :: rest) = readOn off label 0 (some (e.fold line)) rest := by
  rw [readOn, if_neg hl, h]
  rfl

theorem readOn_panic {cur : Option Entry} (hl : line ≠ []) (h : lineKind off line rest = .error p) :
    readOn off label 0 cur (line :: rest) = .error p := by
  rw [readOn, if_neg hl, h]

theorem starts_open {inside : Bool} (hl : line ≠ []) (h : lineKind off line rest = .ok k)
    (hk : k = .text → inside = false) :
    starts off 0 inside (line :: rest) =
      (starts off k.taken true rest).map ((line :: rest) :: ·) := by
  have hno : ¬ (k = .text ∧ inside = true) := by
    rintro ⟨ht, hi⟩
    rw [hk ht] at hi
    cases hi
  rw [starts, if_neg hl, h]
  simp only [if_neg hno]

theorem starts_fold (hl : line ≠ []) (h : lineKind off line rest = .ok .text) :
    starts off 0 true (line :: rest) = starts off 0 true rest := by
  rw [starts, if_neg hl, h]
  simp only [and_self, if_true]

theorem starts_panic {inside : Bool} (hl : line ≠ []) (h : lineKind off line rest = .error p) :
    starts off 0 inside (line :: rest) = .error p := by
  rw [starts, if_neg hl, h]

/-- Induction along the lines as the reader takes them: a line that a banner has taken, an empty
line, a line it panics at, one that opens an entry, and one that folds into the last. -/
theorem reading_induction (off : ℤ → ℤ) {motive : ℕ → Bool → List (List Char) → Prop}
    (done : ∀ skip inside, motive skip inside [])
    (taken : ∀ skip inside line rest, motive skip inside rest →
      motive (skip + 1) inside (line :: rest))
    (blank : ∀ inside rest, motive 0 inside rest → motive 0 inside ([] :: rest))
    (panics : ∀ inside line rest p, line ≠ [] → lineKind off line rest = .error p →
      motive 0 inside (line :: rest))
    (opens : ∀ inside line rest k, line ≠ [] → lineKind off line rest = .ok k →
      (k = .text → inside = false) → motive k.taken true rest → motive 0 inside (line :: rest))
    (folds : ∀ line rest, line ≠ [] → lineKind off line rest = .ok .text → motive 0 true rest →
      motive 0 true (line :: rest))
    (skip : ℕ) (inside : Bool) (ls : List (List Char)) : motive skip inside ls := by
  induction ls generalizing skip inside with
  | nil => exact done skip inside
  | cons line rest ih =>
      cases skip with
      | succ skip => exact taken skip inside line rest (ih skip inside)
      | zero =>
          by_cases hl : line = []
          · subst hl
            exact blank inside rest (ih 0 inside)
          · cases hk : lineKind off line rest with
            | error p => exact panics inside line rest p hl hk
            | ok k =>
                by_cases hfold : k = .text ∧ inside = true
                · obtain ⟨rfl, rfl⟩ := hfold
                  exact folds line rest hl hk (ih 0 true)
                · refine opens inside line rest k hl hk ?_ (ih k.taken true)
                  intro ht
                  simpa [ht] using hfold

/-- The reader adds what `readOn` says. -/
theorem readFrom_eq_readOn {inside : Bool} {o : List Entry} {c : Option Entry}
    (hin : inside = c.isSome) (ho : c = none → o = []) :
    (readFrom off label skip ls (o ++ c.toList) seq).map (fun r => r.1.map Entry.unnumbered) =
      (readOn off label skip (c.map Entry.unnumbered) ls).map
        (o.map Entry.unnumbered ++ ·) := by
  induction skip, inside, ls using reading_induction off generalizing o c seq with
  | done skip inside =>
      cases skip <;> cases c <;> simp [readFrom, readOn, Except.map]
  | taken skip inside line rest ih => exact ih hin ho
  | blank inside rest ih =>
      rw [readFrom, if_pos rfl, readOn, if_pos rfl]
      exact ih hin ho
  | panics inside line rest p hl hk =>
      rw [readFrom_panic hl hk, readOn_panic hl hk]
      rfl
  | opens inside line rest k hl hk ht ih =>
      have hout : k = .text → o ++ c.toList = [] := by
        intro h
        have hc : c = none := by simpa [ht h] using hin.symm
        simp [hc, ho hc]
      have hcur : k = .text → c.map Entry.unnumbered = none := by
        intro h
        have hc : c = none := by simpa [ht h] using hin.symm
        simp [hc]
      rw [readFrom_open hl hk hout, readOn_open hl hk hcur]
      have hread := @ih (seq + 1) (o ++ c.toList)
        (some ((opened off label line rest).numbered seq)) rfl (by simp)
      rw [Option.map_some, unnumbered_opened, List.map_append] at hread
      rw [← Option.toList_some, hread]
      cases readOn off label k.taken (some (opened off label line rest)) rest with
      | error p => rfl
      | ok es => cases c <;> simp [Except.map]
  | folds line rest hl hk ih =>
      obtain ⟨e, rfl⟩ := Option.isSome_iff_exists.mp hin.symm
      rw [Option.toList_some, readFrom_text hl hk, Option.map_some, readOn_fold hl hk]
      exact ih (c := some (e.fold line)) rfl (by simp)

/-! ### Entries and the lines they begin at -/

theorem cases_of_map_eq_map {ε α β γ : Type} {x : Except ε α} {y : Except ε β} {f : α → γ}
    {g : β → γ} (h : x.map f = y.map g) :
    (∃ e, x = .error e ∧ y = .error e) ∨ ∃ a b, x = .ok a ∧ y = .ok b ∧ f a = g b := by
  cases x with
  | error e =>
      cases y with
      | error e' => exact .inl ⟨e, rfl, by rw [Except.error.inj h]⟩
      | ok b => cases h
  | ok a =>
      cases y with
      | error e => cases h
      | ok b => exact .inr ⟨a, b, rfl, rfl, Except.ok.inj h⟩

theorem exists_of_map_eq_ok {ε α β : Type} {x : Except ε α} {f : α → β} {b : β}
    (h : x.map f = .ok b) : ∃ a, x = .ok a ∧ f a = b := by
  cases x with
  | error e => cases h
  | ok a => exact ⟨a, rfl, Except.ok.inj h⟩

/-- There are as many entries as lines at which one begins. -/
theorem length_readOn {inside : Bool} {c : Option Entry} (hin : inside = c.isSome) :
    (readOn off label skip c ls).map List.length =
      (starts off skip inside ls).map fun ws => c.toList.length + ws.length := by
  induction skip, inside, ls using reading_induction off generalizing c with
  | done skip inside => cases skip <;> simp [readOn, starts, Except.map]
  | taken skip inside line rest ih => exact ih hin
  | blank inside rest ih =>
      rw [readOn, if_pos rfl, starts, if_pos rfl]
      exact ih hin
  | panics inside line rest p hl hk =>
      rw [readOn_panic hl hk, starts_panic hl hk]
      rfl
  | opens inside line rest k hl hk ht ih =>
      have hcur : k = .text → c = none := fun h => by simpa [ht h] using hin.symm
      rw [readOn_open hl hk hcur, starts_open hl hk ht]
      obtain ⟨p, hr, hs⟩ | ⟨es, ws, hr, hs, hlen⟩ :=
        cases_of_map_eq_map (ih (c := some (opened off label line rest)) rfl)
      · rw [hr, hs]
        rfl
      · rw [hr, hs]
        simp only [Option.toList_some, List.length_singleton] at hlen
        simp only [Except.map, List.length_append, List.length_cons, hlen, Except.ok.injEq]
        omega
  | folds line rest hl hk ih =>
      obtain ⟨e, rfl⟩ := Option.isSome_iff_exists.mp hin.symm
      rw [readOn_fold hl hk, starts_fold hl hk]
      exact ih (c := some (e.fold line)) rfl

/-- The entries from a beginning on are those that a reader finds there. -/
theorem drop_readOn {inside : Bool} {c : Option Entry} {es : List Entry}
    {ws : List (List (List Char))} {w : List (List Char)} {i : ℕ} (hin : inside = c.isSome)
    (hr : readOn off label skip c ls = .ok es) (hs : starts off skip inside ls = .ok ws)
    (hw : ws[i]? = some w) :
    readOn off label 0 none w = .ok (es.drop (c.toList.length + i)) := by
  induction skip, inside, ls using reading_induction off generalizing c es ws i with
  | done skip inside =>
      obtain rfl : [] = ws := by cases skip <;> exact Except.ok.inj hs
      simp at hw
  | taken skip inside line rest ih => exact ih hin hr hs hw
  | blank inside rest ih =>
      rw [readOn, if_pos rfl] at hr
      rw [starts, if_pos rfl] at hs
      exact ih hin hr hs hw
  | panics inside line rest p hl hk =>
      rw [readOn_panic hl hk] at hr
      cases hr
  | opens inside line rest k hl hk ht ih =>
      have hcur : k = .text → c = none := fun h => by simpa [ht h] using hin.symm
      rw [readOn_open hl hk hcur] at hr
      rw [starts_open hl hk ht] at hs
      obtain ⟨es', hr', rfl⟩ := exists_of_map_eq_ok hr
      obtain ⟨ws', hs', rfl⟩ := exists_of_map_eq_ok hs
      rw [List.drop_length_add_append]
      cases i with
      | zero =>
          obtain rfl : line :: rest = w := Option.some.inj hw
          rw [readOn_open hl hk fun _ => rfl, hr']
          rfl
      | succ i =>
          have := ih (c := some (opened off label line rest)) rfl hr' hs' hw
          rwa [Option.toList_some, List.length_singleton, Nat.add_comm] at this
  | folds line rest hl hk ih =>
      obtain ⟨e, rfl⟩ := Option.isSome_iff_exists.mp hin.symm
      rw [readOn_fold hl hk] at hr
      rw [starts_fold hl hk] at hs
      exact ih (c := some (e.fold line)) rfl hr hs hw

/-- An entry begins at a line that is not empty. -/
theorem of_mem_starts {inside : Bool} {ws : List (List (List Char))} {w : List (List Char)}
    (hs : starts off skip inside ls = .ok ws) (hw : w ∈ ws) :
    w <:+ ls ∧ ∃ line rest, w = line :: rest ∧ line ≠ [] := by
  induction skip, inside, ls using reading_induction off generalizing ws with
  | done skip inside =>
      obtain rfl : [] = ws := by cases skip <;> exact Except.ok.inj hs
      simp at hw
  | taken skip inside line rest ih =>
      obtain ⟨h, hl⟩ := ih hs hw
      exact ⟨h.trans (List.suffix_cons line rest), hl⟩
  | blank inside rest ih =>
      rw [starts, if_pos rfl] at hs
      obtain ⟨h, hl⟩ := ih hs hw
      exact ⟨h.trans (List.suffix_cons [] rest), hl⟩
  | panics inside line rest p hl hk =>
      rw [starts_panic hl hk] at hs
      cases hs
  | opens inside line rest k hl hk ht ih =>
      rw [starts_open hl hk ht] at hs
      obtain ⟨ws', hs', rfl⟩ := exists_of_map_eq_ok hs
      rcases List.mem_cons.mp hw with rfl | hw
      · exact ⟨List.suffix_rfl, line, rest, rfl, hl⟩
      · obtain ⟨h, hl⟩ := ih hs' hw
        exact ⟨h.trans (List.suffix_cons line rest), hl⟩
  | folds line rest hl hk ih =>
      rw [starts_fold hl hk] at hs
      obtain ⟨h, hl⟩ := ih hs hw
      exact ⟨h.trans (List.suffix_cons line rest), hl⟩

/-! ### Counting lines -/

/-- The lines of an entry. -/
def Entry.lineCount (e : Entry) : ℕ := e.body.count '\n' + 1

/-- The lines that are not empty. -/
def fullLines (ls : List (List Char)) : ℕ := ls.countP fun l => l ≠ []

theorem fullLines_cons {l : List Char} (h : l ≠ []) (ls : List (List Char)) :
    fullLines (l :: ls) = fullLines ls + 1 := by
  rw [fullLines, List.countP_cons_of_pos (by simpa using h)]
  rfl

theorem lineCount_of_notMem {e : Entry} (h : '\n' ∉ e.body) : e.lineCount = 1 := by
  rw [Entry.lineCount, List.count_eq_zero.mpr h]

theorem ne_nil_of_parseBannerMiddle {l : List Char} {t : ℤ}
    (h : parseBannerMiddle off l = .ok (some t)) : l ≠ [] := by
  rintro rfl
  simp [parseBannerMiddle, bannerTail] at h

theorem of_bannerAt_eq_some {e : Entry} (h : bannerAt off label line rest seq = .ok (some e)) :
    ∃ mid rule2 more, rest = mid :: rule2 :: more ∧ mid ≠ [] ∧ rule2 ≠ [] ∧
      e.body = line ++ '\n' :: (mid ++ '\n' :: rule2) := by
  match rest, h with
  | mid :: rule2 :: more, h =>
      simp only [bannerAt] at h
      split_ifs at h with hr
      · rw [tryConsumeBanner] at h
        split_ifs at h with hrules
        · cases h
        · obtain ⟨t, ht, he⟩ := andThen_eq_some_iff.mp h
          obtain rfl := Option.some.inj (Except.ok.inj he)
          push Not at hrules
          exact ⟨mid, rule2, more, rfl, ne_nil_of_parseBannerMiddle ht,
            ne_nil_of_isBannerRule (by simpa using hrules.2), rfl⟩
      · cases h

/-- The lines that an entry opens with are those that are taken. -/
theorem lineCount_opened (h : lineKind off line rest = .ok k) (hl : line ≠ [])
    (hn : ∀ l ∈ line :: rest, '\n' ∉ l) :
    (opened off label line rest).lineCount + fullLines (rest.drop k.taken) =
      fullLines (line :: rest) := by
  have hline : '\n' ∉ line := hn line (by simp)
  rw [opened, bannerAt_eq]
  obtain ⟨q, he, -⟩ | ⟨e, he, hb⟩ | ⟨hb, ⟨q, he, -⟩ | ⟨ts, body, he, hp⟩ | ⟨he, hp⟩⟩ :=
    lineKind_cases off line rest
  · cases he.symm.trans h
  · obtain ⟨mid, rule2, more, rfl, hmid, hrule, hbody⟩ := of_bannerAt_eq_some hb
    obtain rfl := Except.ok.inj (he.symm.trans h)
    have hno : ∀ l ∈ line :: mid :: rule2 :: more, List.count '\n' l = 0 :=
      fun l hl => List.count_eq_zero.mpr (hn l hl)
    simp only [hb, Except.map, Option.map_some, Entry.lineCount, hbody, List.count_append,
      List.count_cons_self, hno line (by simp), hno mid (by simp), hno rule2 (by simp),
      LineKind.taken, List.drop_succ_cons, List.drop_zero, fullLines_cons hl,
      fullLines_cons hmid, fullLines_cons hrule]
    omega
  · cases he.symm.trans h
  · obtain rfl := Except.ok.inj (he.symm.trans h)
    simp only [hb, Except.map, Option.map_none, hp, LineKind.taken, List.drop_zero]
    rw [lineCount_of_notMem fun hm => hline ((parseLine_body hp).1.subset hm), fullLines_cons hl,
      Nat.add_comm]
  · obtain rfl := Except.ok.inj (he.symm.trans h)
    simp only [hb, Except.map, Option.map_none, hp, LineKind.taken, List.drop_zero]
    rw [lineCount_of_notMem hline, fullLines_cons hl, Nat.add_comm]

/-- Every line that is not empty is in one entry. -/
theorem lineCount_readOn {inside : Bool} {c : Option Entry} {es : List Entry}
    (hin : inside = c.isSome) (hn : ∀ l ∈ ls, '\n' ∉ l)
    (hr : readOn off label skip c ls = .ok es) :
    (es.map Entry.lineCount).sum =
      (c.toList.map Entry.lineCount).sum + fullLines (ls.drop skip) := by
  induction skip, inside, ls using reading_induction off generalizing c es with
  | done skip inside =>
      obtain rfl : c.toList = es := by cases skip <;> exact Except.ok.inj hr
      simp [fullLines]
  | taken skip inside line rest ih => exact ih hin (fun l hl => hn l (by simp [hl])) hr
  | blank inside rest ih =>
      rw [readOn, if_pos rfl] at hr
      exact ih hin (fun l hl => hn l (by simp [hl])) hr
  | panics inside line rest p hl hk =>
      rw [readOn_panic hl hk] at hr
      cases hr
  | opens inside line rest k hl hk ht ih =>
      have hcur : k = .text → c = none := fun h => by simpa [ht h] using hin.symm
      rw [readOn_open hl hk hcur] at hr
      obtain ⟨es', hr', rfl⟩ := exists_of_map_eq_ok hr
      have h₁ := ih (c := some (opened off label line rest)) rfl
        (fun l hl => hn l (by simp [hl])) hr'
      have h₂ : (opened off label line rest).lineCount + _ = _ := lineCount_opened hk hl hn
      simp only [Option.toList_some, List.map_cons, List.map_nil, List.sum_cons,
        List.sum_nil] at h₁
      rw [List.map_append, List.sum_append, h₁, List.drop_zero]
      omega
  | folds line rest hl hk ih =>
      obtain ⟨e, rfl⟩ := Option.isSome_iff_exists.mp hin.symm
      rw [readOn_fold hl hk] at hr
      have h₁ := ih (c := some (e.fold line)) rfl (fun l hl => hn l (by simp [hl])) hr
      have hno : List.count '\n' line = 0 := List.count_eq_zero.mpr (hn line (by simp))
      rw [List.drop_zero] at h₁ ⊢
      rw [h₁, fullLines_cons hl]
      simp only [Option.toList_some, List.map_cons, List.map_nil, List.sum_cons, List.sum_nil,
        Entry.lineCount, Entry.fold, List.count_append, List.count_cons_self, hno]
      omega

/-- Of two ends of a text that begin with a line that is not empty, the longer has more such
lines. -/
theorem eq_of_suffix_of_fullLines {v w : List (List Char)} (h : v <:+ w)
    (hw : ∃ line rest, w = line :: rest ∧ line ≠ []) (he : fullLines v = fullLines w) : v = w := by
  obtain ⟨line, rest, rfl, hl⟩ := hw
  rcases List.suffix_cons_iff.mp h with h | h
  · exact h
  · have hle : fullLines v ≤ fullLines rest := h.sublist.countP_le
    rw [fullLines_cons hl] at he
    omega

theorem length_of_readOn {es : List Entry} {ws : List (List (List Char))}
    (hr : readOn off label 0 none ls = .ok es) (hs : starts off 0 false ls = .ok ws) :
    es.length = ws.length := by
  have h : (readOn off label 0 none ls).map List.length =
      (starts off 0 false ls).map fun ws => 0 + ws.length := length_readOn rfl
  rw [hr, hs] at h
  simpa using Except.ok.inj h

theorem readOn_of_start {es : List Entry} {ws : List (List (List Char))} {w : List (List Char)}
    {i : ℕ} (hr : readOn off label 0 none ls = .ok es) (hs : starts off 0 false ls = .ok ws)
    (hw : ws[i]? = some w) : readOn off label 0 none w = .ok (es.drop i) := by
  have h := drop_readOn rfl hr hs hw
  rwa [Option.toList_none, List.length_nil, Nat.zero_add] at h

/-- **The last entries of a window** are those of the file if and only if the first of them begins
at a line at which an entry of the file begins. -/
theorem lastEntries_eq_iff {lw : List (List Char)} {esF esW : List Entry}
    {ss ws : List (List (List Char))} (hsuf : lw <:+ ls ∨ ws = [])
    (hn : ∀ l ∈ ls, '\n' ∉ l)
    (hF : readOn off label 0 none ls = .ok esF) (hW : readOn off label 0 none lw = .ok esW)
    (hss : starts off 0 false ls = .ok ss) (hws : starts off 0 false lw = .ok ws)
    (hle : n ≤ ws.length) :
    esW.drop (esW.length - n) = esF.drop (esF.length - n) ↔
      ∀ w ∈ (ws.drop (ws.length - n)).head?, w ∈ ss := by
  have hlenF := length_of_readOn hF hss
  have hlenW := length_of_readOn hW hws
  rcases Nat.eq_zero_or_pos n with rfl | hpos
  · simp
  · have hi : ws.length - n < ws.length := by omega
    have hsuf : lw <:+ ls := hsuf.resolve_right (List.ne_nil_of_length_pos (by omega))
    have hw := List.getElem?_eq_getElem hi
    have hreadW := readOn_of_start hW hws hw
    rw [List.head?_drop, hw, hlenW]
    simp only [Option.mem_some_iff, forall_eq']
    constructor
    · intro he
      have hlen := congrArg List.length he
      rw [List.length_drop, List.length_drop, hlenW, hlenF] at hlen
      have hj : ss.length - n < ss.length := by omega
      obtain ⟨v, hv⟩ : ∃ v, ss[ss.length - n]? = some v := ⟨_, List.getElem?_eq_getElem hj⟩
      have hmem := List.mem_of_getElem? hv
      have hreadF := readOn_of_start hF hss hv
      rw [← hlenF, ← he] at hreadF
      obtain ⟨hsv, hv⟩ := of_mem_starts hss hmem
      obtain ⟨hsw, hw'⟩ := of_mem_starts hws (List.getElem_mem hi)
      have hsw := hsw.trans hsuf
      have cv := lineCount_readOn rfl (fun l hl => hn l (hsv.subset hl)) hreadF
      have cw := lineCount_readOn rfl (fun l hl => hn l (hsw.subset hl)) hreadW
      have hfull : fullLines v = fullLines ws[ws.length - n] := by simpa using cv.symm.trans cw
      have heq : v = ws[ws.length - n] := by
        rcases List.suffix_or_suffix_of_suffix hsv hsw with h | h
        · exact eq_of_suffix_of_fullLines h hw' hfull
        · exact (eq_of_suffix_of_fullLines h hv hfull.symm).symm
      exact heq ▸ hmem
    · intro hmem
      obtain ⟨j, hj, hjw⟩ := List.getElem_of_mem hmem
      have hreadF := readOn_of_start hF hss (List.getElem?_eq_getElem hj)
      rw [hjw, hreadW] at hreadF
      have he := Except.ok.inj hreadF
      have hlen := congrArg List.length he
      rw [List.length_drop, List.length_drop, hlenW, hlenF] at hlen
      have hjn : j = esF.length - n := by omega
      rw [he, hjn]

end

/-! ### Windows -/

/-- The bytes that attempt `i` looks at. -/
def guess (n i : ℕ) : ℕ := min (200 * n * 4 ^ i) (2 ^ 64 - 1)

/-- The lines of a window: those behind the line that it begins in. -/
def windowLines (tail : List Char) : List (List Char) := (cut '\n' tail).2.splitOn '\n'

/-- A window of `g` bytes begins at a character boundary, and a reader of it finds the entries that
begin at `ws`. -/
def Window (off : ℤ → ℤ) (s : List Char) (g : ℕ) (ws : List (List (List Char))) : Prop :=
  ∃ tail, tail <:+ s ∧ byteLen tail = g ∧ starts off 0 false (windowLines tail) = .ok ws

/-- The windows up to the first that holds `n` entries begin at character boundaries and can be
read, and in the last of them, the first entry that is kept begins at one of the lines `ss`. -/
def WindowsAgree (off : ℤ → ℤ) (s : List Char) (n : ℕ) (ss : List (List (List Char))) : Prop :=
  ∀ i < 4, guess n i < byteLen s →
    (∀ j < i, ∃ ws, Window off s (guess n j) ws ∧ ws.length < n) →
      ∃ ws, Window off s (guess n i) ws ∧
        (n ≤ ws.length → ∀ w ∈ (ws.drop (ws.length - n)).head?, w ∈ ss)

/-- The last `n` entries of the file are returned, up to their numbers. -/
def ReadsLast (off : ℤ → ℤ) (label : String) (s : List Char) (n seq : ℕ) : Prop :=
  ∃ all m es m', readEntries off label s seq = .ok (all, m) ∧
    readLastNEntries off label (encode s) n seq = .ok (es, m') ∧
    es.map Entry.unnumbered = (all.drop (all.length - n)).map Entry.unnumbered

theorem cut_encode (t : List Char) :
    cut lineFeed (encode t) = (encode (cut '\n' t).1, encode (cut '\n' t).2) := by
  rcases notMem_or_exists '\n' t with h | ⟨p, r, rfl, hp⟩
  · rw [cut_of_notMem h, cut_of_notMem (mt lineFeed_mem_encode.mp h), encode_nil]
  · have he : encode (p ++ '\n' :: r) = encode p ++ lineFeed :: encode r := by simp
    rw [he, cut_append_sep hp, cut_append_sep (mt lineFeed_mem_encode.mp hp)]
    simp

theorem windowLines_suffix {tail s : List Char} (h : tail <:+ s) :
    windowLines tail <:+ s.splitOn '\n' ∨ windowLines tail = [[]] := by
  obtain ⟨front, rfl⟩ := h
  rw [windowLines]
  rcases notMem_or_exists '\n' tail with ht | ⟨p, r, rfl, hp⟩
  · rw [cut_of_notMem ht]
    exact Or.inr rfl
  · rw [cut_append_sep hp, ← List.append_assoc, List.splitOn_append_cons_self]
    exact Or.inl (List.suffix_append _ _)

section

variable {off : ℤ → ℤ} {label : String} {s : List Char} {n seq g : ℕ}

theorem readEntries_eq_readOn (off : ℤ → ℤ) (label : String) (text : List Char) (seq : ℕ) :
    (readEntries off label text seq).map (fun r => r.1.map Entry.unnumbered) =
      readOn off label 0 none (text.splitOn '\n') := by
  have h : (readFrom off label 0 (text.splitOn '\n') [] seq).map
      (fun r => r.1.map Entry.unnumbered) =
        (readOn off label 0 none (text.splitOn '\n')).map ([] ++ ·) :=
    readFrom_eq_readOn (c := none) (o := []) rfl fun _ => rfl
  rw [readEntries, h]
  cases readOn off label 0 none (text.splitOn '\n') <;> rfl

theorem readOn_or_starts (off : ℤ → ℤ) (label : String) (text : List Char) :
    (∃ p, readOn off label 0 none (text.splitOn '\n') = .error p ∧
        starts off 0 false (text.splitOn '\n') = .error p) ∨
      ∃ es ws, readOn off label 0 none (text.splitOn '\n') = .ok es ∧
        starts off 0 false (text.splitOn '\n') = .ok ws ∧ es.length = 0 + ws.length :=
  cases_of_map_eq_map (length_readOn rfl)

theorem readEntries_of_starts (label : String) {text : List Char} {ws : List (List (List Char))}
    (h : starts off 0 false (text.splitOn '\n') = .ok ws) (seq : ℕ) :
    ∃ es m, readEntries off label text seq = .ok (es, m) ∧ es.length = ws.length ∧
      readOn off label 0 none (text.splitOn '\n') = .ok (es.map Entry.unnumbered) := by
  obtain ⟨p, -, hs⟩ | ⟨es, vs, hr, hs, hlen⟩ := readOn_or_starts off label text
  · cases hs.symm.trans h
  · obtain rfl := Except.ok.inj (hs.symm.trans h)
    have he := readEntries_eq_readOn off label text seq
    rw [hr] at he
    obtain ⟨r, hread, rfl⟩ := exists_of_map_eq_ok he
    exact ⟨r.1, r.2, hread, by simpa using hlen, hr⟩

theorem starts_of_readEntries {text : List Char} {r : List Entry × ℕ}
    (h : readEntries off label text seq = .ok r) :
    ∃ ws, starts off 0 false (text.splitOn '\n') = .ok ws := by
  obtain ⟨p, hr, -⟩ | ⟨es, ws, -, hs, -⟩ := readOn_or_starts off label text
  · have he := readEntries_eq_readOn off label text seq
    rw [h, hr] at he
    cases he
  · exact ⟨ws, hs⟩

theorem drop_encode_of_suffix {tail : List Char} (h : tail <:+ s) :
    (encode s).drop ((encode s).length - byteLen tail) = encode tail := by
  obtain ⟨front, rfl⟩ := h
  have : (encode (front ++ tail)).length - byteLen tail = (encode front).length := by simp
  rw [this, encode_append, List.drop_left]

/-- A line is skipped only behind a character boundary. -/
theorem suffix_of_skipLine {b : List UInt8} {k : ℕ}
    (h : skipLine ((encode s).drop k) = .ok (some b)) : ∃ front tail, s = front ++ tail ∧
      byteLen front = k := by
  rw [skipLine] at h
  split_ifs at h with hne
  · cases h
  · cases hd : decode (cut lineFeed ((encode s).drop k)).1 with
    | none => rw [hd] at h; cases h
    | some l =>
        have hl := encode_of_decode hd
        cases l with
        | nil => exact absurd (cut_fst_eq_nil.mp hl.symm) hne
        | cons c l =>
            have hcut : (cut lineFeed _).1 ++ (cut lineFeed _).2 = _ :=
              cut_append_cut ((encode s).drop k)
            rw [← hl, encode_cons, List.append_assoc] at hcut
            obtain ⟨front, tail, he, hf, -⟩ := append_of_drop_encode hcut.symm
            exact ⟨front, tail, he, hf⟩

theorem skipLine_encode {tail : List Char} (h : tail ≠ []) :
    skipLine (encode tail) = .ok (some (encode (cut '\n' tail).2)) := by
  have hne : encode tail ≠ [] := by
    intro he
    exact h (encode_injective he)
  rw [skipLine, if_neg hne, cut_encode]
  simp only [decode_encode]

theorem readText_encode (text : List Char) (seq : ℕ) {r : List Entry × ℕ}
    (h : readEntries off label text seq = .ok r) :
    readText off label (encode text) seq = .ok r := by
  rw [readText, decode_encode]
  simp only [h]

theorem readText_error (label : String) {text : List Char} (seq : ℕ)
    (h : ∀ ws, starts off 0 false (text.splitOn '\n') ≠ .ok ws) :
    ∃ e, readText off label (encode text) seq = .error e := by
  cases hr : readEntries off label text seq with
  | error p => exact ⟨.panic p, by rw [readText, decode_encode]; simp only [hr]⟩
  | ok r =>
      obtain ⟨ws, hs⟩ := starts_of_readEntries hr
      exact absurd hs (h ws)

/-! ### Attempts -/

/-- The size of the window after one of `g` bytes. -/
def nextGuess (size g : ℕ) : ℕ := if size < saturatingMul g 4 then size else saturatingMul g 4

/-- An attempt with a window that is not the whole file. -/
theorem readAttempts_of_window (label : String) {ws : List (List (List Char))} (k seq : ℕ)
    (hg : g < byteLen s) (h0 : g = 0 → n = 0) (hw : Window off s g ws) :
    ∃ lw es m, (lw <:+ s.splitOn '\n' ∨ ws = []) ∧ starts off 0 false lw = .ok ws ∧
      readOn off label 0 none lw = .ok (es.map Entry.unnumbered) ∧
      readAttempts off label (encode s) n (k + 1) g seq =
        if n ≤ ws.length then .ok (keepLast n (es, m))
        else readAttempts off label (encode s) n k (nextGuess (byteLen s) g) m := by
  obtain ⟨tail, hsuf, hlen, hs⟩ := hw
  obtain ⟨es, m, hr, hes, hon⟩ := readEntries_of_starts label hs seq
  refine ⟨windowLines tail, es, m, ?_, hs, hon, ?_⟩
  · rcases windowLines_suffix hsuf with h | h
    · exact Or.inl h
    · rw [h] at hs
      exact Or.inr (Except.ok.inj hs).symm
  · have htarget : ¬ (encode s).length < g := by rw [length_encode]; omega
    have hlt : g < (encode s).length := by rwa [length_encode]
    have hdrop := drop_encode_of_suffix hsuf
    rw [hlen] at hdrop
    rw [readAttempts]
    simp only [if_neg htarget, if_pos hlt, hdrop]
    by_cases htail : tail = []
    · -- nothing is read, and nothing was asked for
      subst htail
      obtain rfl : 0 = g := hlen
      obtain rfl := h0 rfl
      obtain ⟨rfl, rfl⟩ : [] = es ∧ seq = m := Prod.mk.inj (Except.ok.inj hr)
      rw [if_pos (Nat.zero_le _)]
      rfl
    · rw [skipLine_encode htail]
      have hno : ¬ byteLen s ≤ g := by omega
      simp only [readText_encode _ _ hr, hes, length_encode, hno, or_false]
      rfl

/-- An attempt with a window that begins in a character, or that cannot be read. -/
theorem readAttempts_of_not_window (label : String) (n k seq : ℕ) (hg : g < byteLen s)
    (hw : ∀ ws, ¬ Window off s g ws) :
    ∃ e, readAttempts off label (encode s) n (k + 1) g seq = .error e := by
  have htarget : ¬ (encode s).length < g := by rw [length_encode]; omega
  have hlt : g < (encode s).length := by rwa [length_encode]
  rw [readAttempts]
  simp only [if_neg htarget, if_pos hlt]
  cases hsk : skipLine ((encode s).drop ((encode s).length - g)) with
  | error e => exact ⟨e, rfl⟩
  | ok o =>
      cases o with
      | none =>
          -- the window is empty
          exfalso
          rw [skipLine] at hsk
          split_ifs at hsk with hnil
          · have hlen := congrArg List.length hnil
            rw [List.length_drop, List.length_nil] at hlen
            have hg0 : g = 0 := by omega
            exact hw [] ⟨[], List.nil_suffix, hg0.symm, rfl⟩
          · split at hsk <;> cases hsk
      | some body =>
          obtain ⟨front, tail, rfl, hf⟩ := suffix_of_skipLine hsk
          have hlen : byteLen tail = g := by
            rw [length_encode, byteLen_append] at hf hlt
            omega
          have hsuf := List.suffix_append front tail
          have hdrop := drop_encode_of_suffix hsuf
          rw [hlen] at hdrop
          rw [hdrop] at hsk
          have htail : tail ≠ [] := by
            rintro rfl
            cases hsk
          rw [skipLine_encode htail] at hsk
          obtain rfl := Option.some.inj (Except.ok.inj hsk)
          obtain ⟨e, he⟩ := readText_error label seq fun ws hs => hw ws ⟨tail, hsuf, hlen, hs⟩
          exact ⟨e, by simp only [he]⟩

theorem readAttempts_whole {k : ℕ} {r : List Entry × ℕ} (hg : byteLen s ≤ g)
    (hr : readEntries off label s seq = .ok r) :
    readAttempts off label (encode s) n (k + 1) g seq = .ok (keepLast n r) := by
  have htarget : (if (encode s).length < g then (encode s).length else g) = (encode s).length := by
    rw [length_encode]
    split_ifs <;> omega
  rw [readAttempts]
  simp only [htarget, lt_irrefl, if_false, Nat.sub_self, List.drop_zero, readText_encode _ _ hr]
  rw [if_pos (Or.inr (by rwa [length_encode]))]

/-- The result has the last `n` of all entries. -/
def Lasts (all : List Entry) (n : ℕ) (r : Except ReadError (List Entry × ℕ)) : Prop :=
  ∃ es m, r = .ok (es, m) ∧ es.map Entry.unnumbered = all.drop (all.length - n)

theorem lasts_keepLast_iff {all es : List Entry} {m : ℕ} :
    Lasts all n (.ok (keepLast n (es, m))) ↔
      (es.map Entry.unnumbered).drop ((es.map Entry.unnumbered).length - n) =
        all.drop (all.length - n) := by
  rw [List.length_map, ← List.map_drop]
  constructor
  · rintro ⟨es', m', he, h⟩
    obtain ⟨rfl, rfl⟩ := Prod.mk.inj (Except.ok.inj he)
    exact h
  · intro h
    exact ⟨_, _, rfl, h⟩

theorem eq_zero_of_guess {i : ℕ} (h : guess n i = 0) : n = 0 := by
  have hp : 0 < 4 ^ i := Nat.pow_pos (by decide)
  rw [guess] at h
  have hz : 200 * n * 4 ^ i = 0 := by omega
  rcases Nat.mul_eq_zero.mp hz with h | h <;> omega

theorem nextGuess_spec (n size i : ℕ) :
    (nextGuess size (guess n i) < size ↔ guess n (i + 1) < size) ∧
      (nextGuess size (guess n i) < size → nextGuess size (guess n i) = guess n (i + 1)) := by
  have hmul : saturatingMul (guess n i) 4 = guess n (i + 1) := by
    have hpow : 200 * n * 4 ^ (i + 1) = 200 * n * 4 ^ i * 4 := by rw [pow_succ, ← Nat.mul_assoc]
    rw [saturatingMul, guess, guess, hpow]
    omega
  rw [nextGuess, hmul]
  split_ifs <;> omega

theorem guess_le {i j : ℕ} (h : i ≤ j) : guess n i ≤ guess n j := by
  have hp : 4 ^ i ≤ 4 ^ j := Nat.pow_le_pow_right (by decide) h
  have := Nat.mul_le_mul_left (200 * n) hp
  rw [guess, guess]
  omega

theorem suffix_eq_of_byteLen {t t' : List Char} (h : t <:+ s) (h' : t' <:+ s)
    (he : byteLen t = byteLen t') : t = t' := by
  have heq : ∀ {a b : List Char}, a <:+ b → byteLen a = byteLen b → a = b := by
    rintro a b ⟨c, rfl⟩ hlen
    rw [byteLen_append] at hlen
    have hc : c = [] := by
      by_contra hne
      have := byteLen_pos_iff.mpr hne
      omega
    rw [hc, List.nil_append]
  rcases List.suffix_or_suffix_of_suffix h h' with hs | hs
  · exact heq hs he
  · exact (heq hs he.symm).symm

theorem Window.unique {ws ws' : List (List (List Char))} (h : Window off s g ws)
    (h' : Window off s g ws') : ws = ws' := by
  obtain ⟨t, ht, hlen, hs⟩ := h
  obtain ⟨t', ht', hlen', hs'⟩ := h'
  obtain rfl := suffix_eq_of_byteLen ht ht' (hlen.trans hlen'.symm)
  exact Except.ok.inj (hs.symm.trans hs')

/-- The windows of the `k` attempts from `i` on agree with the file. -/
def AgreeFrom (off : ℤ → ℤ) (s : List Char) (n : ℕ) (ss : List (List (List Char))) (i k : ℕ) :
    Prop :=
  ∀ j, i ≤ j → j < i + k → guess n j < byteLen s →
    (∀ l, i ≤ l → l < j → ∃ ws, Window off s (guess n l) ws ∧ ws.length < n) →
      ∃ ws, Window off s (guess n j) ws ∧
        (n ≤ ws.length → ∀ w ∈ (ws.drop (ws.length - n)).head?, w ∈ ss)

/-- The first window that holds enough entries decides. -/
theorem agreeFrom_iff_of_le {ss ws : List (List (List Char))} {i k : ℕ}
    (hsize : guess n i < byteLen s) (hw : Window off s (guess n i) ws) (hn : n ≤ ws.length) :
    AgreeFrom off s n ss i (k + 1) ↔ ∀ w ∈ (ws.drop (ws.length - n)).head?, w ∈ ss := by
  constructor
  · intro h
    obtain ⟨ws', hw', hall⟩ := h i le_rfl (by omega) hsize fun l h₁ h₂ => by omega
    obtain rfl := hw'.unique hw
    exact hall hn
  · intro h j hij hj hjs hfew
    rcases Nat.eq_or_lt_of_le hij with rfl | hlt
    · exact ⟨ws, hw, fun _ => h⟩
    · obtain ⟨ws', hw', hfew⟩ := hfew i le_rfl hlt
      rw [hw'.unique hw] at hfew
      omega

/-- A window that holds too few leaves it to the next. -/
theorem agreeFrom_iff_of_lt {ss ws : List (List (List Char))} {i k : ℕ}
    (hw : Window off s (guess n i) ws) (hn : ws.length < n) :
    AgreeFrom off s n ss i (k + 1) ↔ AgreeFrom off s n ss (i + 1) k := by
  constructor
  · intro h j hij hj hjs hfew
    refine h j (by omega) (by omega) hjs fun l h₁ h₂ => ?_
    rcases Nat.eq_or_lt_of_le h₁ with rfl | hlt
    · exact ⟨ws, hw, hn⟩
    · exact hfew l hlt h₂
  · intro h j hij hj hjs hfew
    rcases Nat.eq_or_lt_of_le hij with rfl | hlt
    · exact ⟨ws, hw, fun h => absurd h (by omega)⟩
    · exact h j hlt (by omega) hjs fun l h₁ h₂ => hfew l (by omega) h₂

/-- The attempts from `i` on. -/
theorem lasts_readAttempts_iff {all : List Entry} {ss : List (List (List Char))} {k i : ℕ}
    (hF : readOn off label 0 none (s.splitOn '\n') = .ok all)
    (hss : starts off 0 false (s.splitOn '\n') = .ok ss)
    (hlt : g < byteLen s ↔ guess n i < byteLen s) (hg : g < byteLen s → g = guess n i) :
    Lasts all n (readAttempts off label (encode s) n k g seq) ↔ AgreeFrom off s n ss i k := by
  induction k generalizing i g seq with
  | zero =>
      obtain ⟨es, m, hr, -, hon⟩ := readEntries_of_starts label hss seq
      obtain rfl := Except.ok.inj (hF.symm.trans hon)
      refine iff_of_true ?_ fun j h₁ h₂ => absurd h₂ (by omega)
      rw [readAttempts, readText_encode _ _ hr]
      exact lasts_keepLast_iff.mpr rfl
  | succ k ih =>
      by_cases hsize : g < byteLen s
      · obtain rfl := hg hsize
        by_cases hw : ∃ ws, Window off s (guess n i) ws
        · obtain ⟨ws, hw⟩ := hw
          obtain ⟨lw, es, m, hsuf, hsw, hon, he⟩ :=
            readAttempts_of_window label k seq hsize eq_zero_of_guess hw
          rw [he]
          split_ifs with hn
          · rw [lasts_keepLast_iff, agreeFrom_iff_of_le hsize hw hn]
            exact lastEntries_eq_iff hsuf (fun l hl => not_mem_of_mem_splitOn hl) hF hon hss hsw hn
          · obtain ⟨hlt', hg'⟩ := nextGuess_spec n (byteLen s) i
            rw [ih hlt' hg', agreeFrom_iff_of_lt hw (not_le.mp hn)]
        · -- nothing is returned
          obtain ⟨e, he⟩ := readAttempts_of_not_window label n k seq hsize
            fun ws h => hw ⟨ws, h⟩
          rw [he]
          refine iff_of_false ?_ fun h => ?_
          · rintro ⟨es, m, h, -⟩
            cases h
          · obtain ⟨ws, h, -⟩ := h i le_rfl (by omega) hsize fun l h₁ h₂ => by omega
            exact hw ⟨ws, h⟩
      · have hno : ∀ j, i ≤ j → ¬ guess n j < byteLen s := by
          intro j hj h
          exact hsize (hlt.mpr ((guess_le hj).trans_lt h))
        obtain ⟨es, m, hr, -, hon⟩ := readEntries_of_starts label hss seq
        obtain rfl := Except.ok.inj (hF.symm.trans hon)
        refine iff_of_true ?_ fun j h₁ h₂ h₃ => absurd h₃ (hno j h₁)
        rw [readAttempts_whole (not_lt.mp hsize) hr]
        exact lasts_keepLast_iff.mpr rfl

theorem lasts_readLastNEntries_iff {all : List Entry} {ss : List (List (List Char))}
    (hF : readOn off label 0 none (s.splitOn '\n') = .ok all)
    (hss : starts off 0 false (s.splitOn '\n') = .ok ss) :
    Lasts all n (readLastNEntries off label (encode s) n seq) ↔ WindowsAgree off s n ss := by
  rw [readLastNEntries, WindowsAgree]
  by_cases hs : s = []
  · subst hs
    obtain rfl : [] = all := Except.ok.inj hF
    exact iff_of_true ⟨[], seq, rfl, by simp⟩ fun i _ h => absurd h (Nat.not_lt_zero _)
  · have hne : encode s ≠ [] := fun he => hs (encode_injective he)
    have h0 : saturatingMul n 200 = guess n 0 := by
      rw [saturatingMul, guess, pow_zero, Nat.mul_one, Nat.mul_comm]
    rw [if_neg hne, h0, lasts_readAttempts_iff hF hss Iff.rfl fun _ => rfl]
    simp only [AgreeFrom, Nat.zero_le, Nat.zero_add, true_implies]

theorem windowsAgree_of_readsLast (h : ReadsLast off label s n seq) :
    ∃ ss, starts off 0 false (s.splitOn '\n') = .ok ss ∧ WindowsAgree off s n ss := by
  obtain ⟨all, m, es, m', hr, he, h⟩ := h
  obtain ⟨ss, hss⟩ := starts_of_readEntries hr
  obtain ⟨all', m'', hr', -, hon⟩ := readEntries_of_starts label hss seq
  obtain ⟨rfl, rfl⟩ := Prod.mk.inj (Except.ok.inj (hr.symm.trans hr'))
  refine ⟨ss, hss, (lasts_readLastNEntries_iff hon hss).mp ⟨es, m', he, ?_⟩⟩
  rw [h, List.length_map, List.map_drop]

end

/-- **Reading the last entries**: `read_last_n_entries` returns the last `n` entries of the file if
and only if the file can be read and the windows up to the first that holds `n` entries

* begin at character boundaries and can be read, and
* in the last of them, the first entry that is kept begins where an entry of the file begins. -/
theorem readsLast_iff (off : ℤ → ℤ) (label : String) (s : List Char) (n seq : ℕ) :
    ReadsLast off label s n seq ↔
      ∃ ss, starts off 0 false (s.splitOn '\n') = .ok ss ∧ WindowsAgree off s n ss := by
  constructor
  · exact windowsAgree_of_readsLast
  · rintro ⟨ss, hss, h⟩
    obtain ⟨all, m, hr, -, hon⟩ := readEntries_of_starts label hss seq
    obtain ⟨es, m', he, hes⟩ := (lasts_readLastNEntries_iff hon hss).mpr h
    exact ⟨all, m, es, m', hr, he, by rw [hes, List.length_map, List.map_drop]⟩

/-- A panic with a long trace, 389 bytes in all. -/
def trace : List Char :=
  "2026-01-01 00:00:00 panicked\n".toList ++ (List.replicate 30 "   at frame\n".toList).flatten

/-- The last 200 bytes hold lines of the trace only, which the reader takes for an entry. -/
theorem trace_not_readsLast : ¬ ReadsLast (fun _ => 0) "api" trace 1 0 := by
  intro h
  obtain ⟨ss, hss, h⟩ := windowsAgree_of_readsLast h
  obtain ⟨ws, ⟨tail, hsuf, hlen, hs⟩, hall⟩ := h 0 (by decide) (by decide +kernel)
    fun j hj => absurd hj (Nat.not_lt_zero j)
  have htail : byteLen (trace.drop 189) = guess 1 0 := by decide +kernel
  obtain rfl := suffix_eq_of_byteLen (List.drop_suffix 189 trace) hsuf (htail.trans hlen.symm)
  have hwindow : starts (fun _ => 0) 0 false (windowLines (trace.drop 189)) =
      .ok [windowLines (trace.drop 189)] := by decide +kernel
  have hfile : starts (fun _ => 0) 0 false (trace.splitOn '\n') = .ok [trace.splitOn '\n'] := by
    decide +kernel
  obtain rfl := Except.ok.inj (hwindow.symm.trans hs)
  obtain rfl := Except.ok.inj (hfile.symm.trans hss)
  have hmem := hall (by decide) _ rfl
  exact absurd (congrArg List.length (List.mem_singleton.mp hmem)) (by decide +kernel)

end Unitpm.Logs
