import Unitpm.Lib.Frames

/-! # Reading requests off a connection

`BoundedLineReader` of `internal/ipc/transport/server_loop.rs`.  The stream arrives in pieces of
any size: what `fill_buf` returns is a beginning of what is left, and how long it is depends on the
call.

`readLine_frames`: the results of calling `read_line` again and again are the frames of the stream,
up to the first that is too long, whatever the pieces are.  A frame may be one byte longer than a
message, for the newline; `sizeChecked_iff` says what that means at the end of a stream. -/

namespace Unitpm.Ipc

open Frames

/-- `MaxMsgSize`. -/
def maxMsgSize : ℕ := 1024 * 1024

def newline : UInt8 := 10

/-- A `BufRead`: what is left of the stream, and how much each call of `fill_buf` shows of it. -/
structure BufRead where
  rest : List UInt8
  size : ℕ → ℕ
  calls : ℕ := 0

/-- `fill_buf`: at least one byte while there is one. -/
def BufRead.fillBuf (r : BufRead) : List UInt8 × BufRead :=
  (r.rest.take (r.size r.calls + 1), { r with calls := r.calls + 1 })

/-- `consume`. -/
def BufRead.consume (r : BufRead) (n : ℕ) : BufRead := { r with rest := r.rest.drop n }

inductive ReadError where
  | tooLong
deriving DecidableEq

theorem BufRead.rest_lt_of_fillBuf {r : BufRead} (h : r.fillBuf.1 ≠ []) :
    (r.fillBuf.2.consume r.fillBuf.1.length).rest.length < r.rest.length := by
  simp only [fillBuf, ne_eq, List.take_eq_nil_iff, not_or] at h
  simp only [fillBuf, consume, List.length_drop, List.length_take]
  have := List.length_pos_iff.mpr h.2
  omega

/-- The loop of `read_line`, with what it has gathered. -/
def readLineFrom (buf : List UInt8) (r : BufRead) :
    Except ReadError (Option (List UInt8)) × BufRead :=
  let available := r.fillBuf.1
  if available = [] then (.ok (if buf = [] then none else some buf), r.fillBuf.2)
  else match available.idxOf? newline with
    | some idx =>
        let take := idx + 1
        if buf.length + take > maxMsgSize + 1 then (.error .tooLong, r.fillBuf.2)
        else (.ok (some (buf ++ available.take take)), r.fillBuf.2.consume take)
    | none =>
        if buf.length + available.length > maxMsgSize + 1 then (.error .tooLong, r.fillBuf.2)
        else readLineFrom (buf ++ available) (r.fillBuf.2.consume available.length)
termination_by r.rest.length
decreasing_by exact BufRead.rest_lt_of_fillBuf ‹_›

/-- `read_line`. -/
def readLine (r : BufRead) : Except ReadError (Option (List UInt8)) × BufRead := readLineFrom [] r

/-- The results of `n` calls, up to the first error. -/
def readLines : ℕ → BufRead → List (Except ReadError (Option (List UInt8)))
  | 0, _ => []
  | n + 1, r =>
      match readLine r with
      | (.error e, _) => [.error e]
      | (.ok line, r) => .ok line :: readLines n r

/-! ### One line -/

/-- What a call has to return for a frame; the empty one is the end of the stream. -/
def frameResult (f : List UInt8) : Except ReadError (Option (List UInt8)) :=
  if f.length > maxMsgSize + 1 then .error .tooLong
  else .ok (if f = [] then none else some f)

theorem exists_of_idxOf? {l : List UInt8} {b : UInt8} {i : ℕ} (h : l.idxOf? b = some i) :
    ∃ p q, l = p ++ b :: q ∧ p.length = i ∧ b ∉ p := by
  induction l generalizing i with
  | nil => cases h
  | cons a l ih =>
      rw [List.idxOf?_cons] at h
      split_ifs at h with hab
      · obtain rfl := Option.some.inj h
        exact ⟨[], l, by simp [beq_iff_eq.mp hab], rfl, List.not_mem_nil⟩
      · obtain ⟨j, hj, rfl⟩ := Option.map_eq_some_iff.mp h
        obtain ⟨p, q, rfl, rfl, hp⟩ := ih hj
        refine ⟨a :: p, q, rfl, rfl, ?_⟩
        rw [List.mem_cons, not_or]
        exact ⟨fun e => hab (beq_iff_eq.mpr e.symm), hp⟩

theorem BufRead.fillBuf_append (r : BufRead) :
    r.fillBuf.1 ++ (r.fillBuf.2.consume r.fillBuf.1.length).rest = r.rest := by
  simp only [fillBuf, consume, List.length_take]
  by_cases hle : r.size r.calls + 1 ≤ r.rest.length
  · rw [Nat.min_eq_left hle, List.take_append_drop]
  · rw [Nat.min_eq_right (by omega), List.drop_length, List.append_nil,
      List.take_of_length_le (by omega)]

theorem BufRead.rest_of_fillBuf_nil {r : BufRead} (h : r.fillBuf.1 = []) : r.rest = [] := by
  simpa [fillBuf] using h

/-- The piece ends the line. -/
theorem cut_of_idxOf? {buf : List UInt8} {r : BufRead} {i : ℕ} (hbuf : newline ∉ buf)
    (hi : r.fillBuf.1.idxOf? newline = some i) :
    cut newline (buf ++ r.rest) = (buf ++ r.fillBuf.1.take (i + 1), r.rest.drop (i + 1)) ∧
      (r.fillBuf.1.take (i + 1)).length = i + 1 := by
  obtain ⟨p, q, hpq, rfl, hp⟩ := exists_of_idxOf? hi
  have hrest := r.fillBuf_append
  rw [hpq, List.append_assoc, List.cons_append] at hrest
  have htake : (p ++ newline :: q).take (p.length + 1) = p ++ [newline] := by
    rw [List.take_length_add_append]
    rfl
  have hdrop : ∀ l, (p ++ newline :: l).drop (p.length + 1) = l := by
    intro l
    rw [List.drop_length_add_append]
    rfl
  rw [hpq, htake, ← hrest, hdrop, cut_append hbuf, cut_append_sep hp]
  exact ⟨rfl, by simp⟩

theorem notMem_of_idxOf? {buf : List UInt8} {r : BufRead} (hbuf : newline ∉ buf)
    (hi : r.fillBuf.1.idxOf? newline = none) : newline ∉ buf ++ r.fillBuf.1 := by
  rw [List.mem_append, not_or]
  exact ⟨hbuf, List.idxOf?_eq_none_iff.mp hi⟩

/-- **One call**, in the middle of a line: however the stream is cut, the result is that of the
frame of what has been gathered and what is left, and an accepted frame is consumed. -/
theorem readLineFrom_eq (buf : List UInt8) (r : BufRead) (hbuf : newline ∉ buf)
    (hlen : buf.length ≤ maxMsgSize + 1) :
    ∃ r', readLineFrom buf r = (frameResult (cut newline (buf ++ r.rest)).1, r') ∧
      ((cut newline (buf ++ r.rest)).1.length ≤ maxMsgSize + 1 →
        r'.rest = (cut newline (buf ++ r.rest)).2) := by
  induction buf, r using readLineFrom.induct with
  | case1 buf r available hnil =>
      have hrest := BufRead.rest_of_fillBuf_nil hnil
      have hcut : cut newline (buf ++ r.rest) = (buf, []) := by
        rw [hrest, List.append_nil, cut_of_notMem hbuf]
      refine ⟨r.fillBuf.2, ?_, fun _ => ?_⟩
      · rw [readLineFrom, if_pos hnil, hcut, frameResult, if_neg (Nat.not_lt.mpr hlen)]
      · rw [hcut]
        exact hrest
  | case2 buf r available hne idx hidx take hlong =>
      obtain ⟨hcut, htake⟩ := cut_of_idxOf? hbuf hidx
      have hlong' : (cut newline (buf ++ r.rest)).1.length > maxMsgSize + 1 := by
        rw [hcut, List.length_append, htake]
        exact hlong
      refine ⟨r.fillBuf.2, ?_, fun hle => absurd hle (Nat.not_le.mpr hlong')⟩
      rw [readLineFrom, if_neg hne, hidx, frameResult, if_pos hlong']
      exact if_pos hlong
  | case3 buf r available hne idx hidx take hfits =>
      obtain ⟨hcut, htake⟩ := cut_of_idxOf? hbuf hidx
      have hfits' : ¬ (cut newline (buf ++ r.rest)).1.length > maxMsgSize + 1 := by
        rw [hcut, List.length_append, htake]
        exact hfits
      have hne' : buf ++ available.take take ≠ [] := by
        intro he
        rw [(List.append_eq_nil_iff.mp he).2] at htake
        cases htake
      refine ⟨r.fillBuf.2.consume take, ?_, fun _ => ?_⟩
      · rw [readLineFrom, if_neg hne, hidx, frameResult, if_neg hfits', hcut, if_neg hne']
        exact if_neg hfits
      · rw [hcut]
        rfl
  | case4 buf r available hne hidx hlong =>
      have hcut := cut_append (notMem_of_idxOf? hbuf hidx)
        (r.fillBuf.2.consume r.fillBuf.1.length).rest
      rw [List.append_assoc, r.fillBuf_append] at hcut
      have hlong' : (cut newline (buf ++ r.rest)).1.length > maxMsgSize + 1 := by
        rw [hcut, List.length_append, List.length_append]
        exact Nat.lt_of_lt_of_le hlong (Nat.le_add_right _ _)
      refine ⟨r.fillBuf.2, ?_, fun hle => absurd hle (Nat.not_le.mpr hlong')⟩
      rw [readLineFrom, if_neg hne, hidx, frameResult, if_pos hlong']
      exact if_pos hlong
  | case5 buf r available hne hidx hfits ih =>
      have hih := ih (notMem_of_idxOf? hbuf hidx) (by
        rw [List.length_append]
        exact Nat.not_lt.mp hfits)
      rw [List.append_assoc, r.fillBuf_append] at hih
      rw [readLineFrom, if_neg hne, hidx]
      simp only
      rw [if_neg hfits]
      exact hih

/-! ### A session -/

/-- The results of `n` calls on a stream with these frames: each frame in turn up to one that is too
long, and then the end. -/
def frameResults : ℕ → List (List UInt8) → List (Except ReadError (Option (List UInt8)))
  | 0, _ => []
  | n + 1, [] => .ok none :: frameResults n []
  | n + 1, f :: fs =>
      if f.length > maxMsgSize + 1 then [.error .tooLong]
      else .ok (some f) :: frameResults n fs

theorem readLines_eq (n : ℕ) (r : BufRead) :
    readLines n r = frameResults n (frames newline r.rest) := by
  induction n generalizing r with
  | zero => rfl
  | succ n ih =>
      obtain ⟨r', hread, hrest⟩ := readLineFrom_eq [] r List.not_mem_nil (Nat.zero_le _)
      rw [List.nil_append] at hread hrest
      rw [readLines, readLine, hread]
      by_cases hnil : r.rest = []
      · have hcut : cut newline r.rest = ([], []) := by
          rw [hnil]
          rfl
        rw [hcut] at hrest
        have hr' : r'.rest = [] := hrest (Nat.zero_le _)
        have hresult : frameResult [] = .ok none := rfl
        rw [hcut, hresult, hnil]
        simp only [ih, hr']
        rfl
      · rw [frames_of_ne_nil hnil, frameResults]
        by_cases hlong : (cut newline r.rest).1.length > maxMsgSize + 1
        · rw [frameResult, if_pos hlong, if_pos hlong]
        · have hne : (cut newline r.rest).1 ≠ [] := fun h => hnil (cut_fst_eq_nil.mp h)
          rw [frameResult, if_neg hlong, if_neg hlong, if_neg hne]
          simp only [ih, hrest (Nat.not_lt.mp hlong)]

/-- **Framing.** For every stream and every way in which it arrives, the calls return the frames of
the stream in order, up to the first that is too long, and then the end; the frames are the whole
stream. -/
theorem readLine_frames (stream : List UInt8) (size : ℕ → ℕ) (n : ℕ) :
    readLines n { rest := stream, size := size } = frameResults n (frames newline stream) ∧
      (frames newline stream).flatten = stream :=
  ⟨readLines_eq n _, flatten_frames stream⟩

/-! ### The size of a message -/

/-- A line that fits, as its frame is measured. -/
theorem frameResults_append {fs : List (List UInt8)} (h : ∀ f ∈ fs, f.length ≤ maxMsgSize + 1)
    (gs : List (List UInt8)) (n : ℕ) :
    frameResults (fs.length + n) (fs ++ gs) =
      fs.map (fun f => .ok (some f)) ++ frameResults n gs := by
  induction fs with
  | nil => rw [List.length_nil, Nat.zero_add, List.nil_append, List.map_nil, List.nil_append]
  | cons f fs ih =>
      obtain ⟨hf, hfs⟩ := List.forall_mem_cons.mp h
      have hlen : (f :: fs).length + n = fs.length + n + 1 := by
        rw [List.length_cons]
        omega
      rw [hlen, List.cons_append, frameResults, if_neg (by omega), ih hfs, List.map_cons,
        List.cons_append]

theorem mem_frameResults {n : ℕ} {fs : List (List UInt8)} {line : List UInt8}
    (h : .ok (some line) ∈ frameResults n fs) : line ∈ fs ∧ line.length ≤ maxMsgSize + 1 := by
  induction n generalizing fs with
  | zero => cases h
  | succ n ih =>
      cases fs with
      | nil =>
          rw [frameResults] at h
          rcases List.mem_cons.mp h with h | h
          · cases h
          · exact absurd (ih h).1 List.not_mem_nil
      | cons f fs =>
          rw [frameResults] at h
          split_ifs at h with hlong
          · simp at h
          · rcases List.mem_cons.mp h with h | h
            · obtain rfl := Option.some.inj (Except.ok.inj h)
              exact ⟨List.mem_cons_self, by omega⟩
            · exact ⟨List.mem_cons_of_mem _ (ih h).1, (ih h).2⟩

/-- What is returned behind other frames is returned after all of them. -/
theorem fit_of_mem_frameResults {n : ℕ} {fs gs : List (List UInt8)} {line : List UInt8}
    (h : .ok (some line) ∈ frameResults n (fs ++ gs)) :
    line ∈ fs ∨ ∀ f ∈ fs, f.length ≤ maxMsgSize + 1 := by
  induction fs generalizing n with
  | nil => exact .inr fun f hf => absurd hf List.not_mem_nil
  | cons f fs ih =>
      cases n with
      | zero => cases h
      | succ n =>
          rw [List.cons_append, frameResults] at h
          split_ifs at h with hlong
          · simp at h
          · rcases List.mem_cons.mp h with h | h
            · obtain rfl := Option.some.inj (Except.ok.inj h)
              exact .inl List.mem_cons_self
            · rcases ih h with hmem | hall
              · exact .inl (List.mem_cons_of_mem _ hmem)
              · exact .inr (List.forall_mem_cons.mpr ⟨by omega, hall⟩)

/-- A message without the newline that ends it, if one does. -/
def payload (line : List UInt8) : List UInt8 :=
  if line.getLast? = some newline then line.dropLast else line

theorem payload_of_notMem {line : List UInt8} (h : newline ∉ line) : payload line = line := by
  rw [payload, if_neg]
  exact fun hl => h (List.mem_of_getLast? hl)

theorem payload_concat (p : List UInt8) : payload (p ++ [newline]) = p := by
  rw [payload, if_pos List.getLast?_concat, List.dropLast_concat]

theorem length_le_payload (line : List UInt8) : line.length ≤ (payload line).length + 1 := by
  unfold payload
  split_ifs
  · rw [List.length_dropLast]
    omega
  · omega

/-- No message is returned that is longer than `MaxMsgSize`, and a message is returned, after those
before it, if none of them is. -/
def SizeChecked (r : BufRead) : Prop :=
  (∀ n line, .ok (some line) ∈ readLines n r → (payload line).length ≤ maxMsgSize) ∧
    ∀ fs gs, frames newline r.rest = fs ++ gs → (∀ f ∈ fs, (payload f).length ≤ maxMsgSize) →
      readLines fs.length r = fs.map fun f => .ok (some f)

/-- The stream ends one byte beyond `MaxMsgSize` in a line, and the lines before it fit. -/
def Overruns (stream : List UInt8) : Prop :=
  (split newline stream).2.length = maxMsgSize + 1 ∧
    ∀ f ∈ (split newline stream).1, f.length ≤ maxMsgSize + 1

instance (stream : List UInt8) : Decidable (Overruns stream) :=
  inferInstanceAs (Decidable (_ ∧ _))

section Bound

variable {r : BufRead}

theorem mem_readLines_of_overruns (h : Overruns r.rest) :
    .ok (some (split newline r.rest).2) ∈ readLines ((split newline r.rest).1.length + 1) r := by
  obtain ⟨hlen, hfit⟩ := h
  have hne : (split newline r.rest).2 ≠ [] := by
    intro hnil
    rw [hnil] at hlen
    cases hlen
  rw [readLines_eq, frames_eq_split, if_neg hne, frameResults_append hfit, frameResults,
    if_neg (by omega)]
  simp

/-- A line that is returned is complete, and then it has a newline, or it is the last one. -/
theorem payload_le_of_mem_readLines {n : ℕ} {line : List UInt8} (h : ¬ Overruns r.rest)
    (hmem : .ok (some line) ∈ readLines n r) : (payload line).length ≤ maxMsgSize := by
  rw [readLines_eq] at hmem
  obtain ⟨hline, hle⟩ := mem_frameResults hmem
  rw [frames_eq_split] at hline hmem
  by_cases hcomplete : line ∈ (split newline r.rest).1
  · obtain ⟨p, rfl, -⟩ := exists_of_mem_split hcomplete
    rw [List.length_append, List.length_singleton] at hle
    rw [payload_concat]
    omega
  · have hfit := (fit_of_mem_frameResults hmem).resolve_left hcomplete
    have hopen := (List.mem_append.mp hline).resolve_left hcomplete
    have heq : line = (split newline r.rest).2 := by
      split_ifs at hopen
      · cases hopen
      · exact List.mem_singleton.mp hopen
    rw [heq] at hle ⊢
    rw [payload_of_notMem (notMem_snd_split r.rest)]
    have hneq : (split newline r.rest).2.length ≠ maxMsgSize + 1 := fun hlen => h ⟨hlen, hfit⟩
    omega

theorem readLines_of_fit {fs gs : List (List UInt8)} (hfs : frames newline r.rest = fs ++ gs)
    (hsize : ∀ f ∈ fs, (payload f).length ≤ maxMsgSize) :
    readLines fs.length r = fs.map fun f => .ok (some f) := by
  have hfit : ∀ f ∈ fs, f.length ≤ maxMsgSize + 1 := by
    intro f hf
    have := length_le_payload f
    have := hsize f hf
    omega
  have happend := frameResults_append hfit gs 0
  rw [Nat.add_zero, frameResults, List.append_nil] at happend
  rw [readLines_eq, hfs, happend]

end Bound

/-- **The bound on messages** holds, however a stream arrives, exactly if the stream does not end
without a newline one byte beyond it. -/
theorem sizeChecked_iff (r : BufRead) : SizeChecked r ↔ ¬ Overruns r.rest := by
  constructor
  · rintro ⟨hshort, -⟩ hover
    have hle := hshort _ _ (mem_readLines_of_overruns hover)
    rw [payload_of_notMem (notMem_snd_split r.rest)] at hle
    have hlen := hover.1
    omega
  · intro hover
    exact ⟨fun n line hmem => payload_le_of_mem_readLines hover hmem,
      fun fs gs hfs hsize => readLines_of_fit hfs hsize⟩

/-- A line of `MaxMsgSize + 1` bytes at the end of the stream is returned. -/
theorem long_line_at_end :
    let long := List.replicate (maxMsgSize + 1) (0x20 : UInt8)
    readLines 1 { rest := long, size := fun _ => maxMsgSize } = [.ok (some long)] ∧
      maxMsgSize < (payload long).length ∧
      ¬ SizeChecked { rest := long, size := fun _ => maxMsgSize } := by
  intro long
  have hlast : newline ∉ long := by simp [long, newline, List.mem_replicate]
  have hlen : long.length = maxMsgSize + 1 := List.length_replicate
  have hsplit := split_of_notMem hlast
  have hne : long ≠ [] := by
    intro hnil
    rw [hnil] at hlen
    cases hlen
  have hread : readLines 1 { rest := long, size := fun _ => maxMsgSize } = [.ok (some long)] := by
    rw [readLines_eq, frames_eq_split, hsplit]
    simp only [List.nil_append]
    rw [if_neg hne, frameResults, if_neg (by omega), frameResults]
  refine ⟨hread, ?_, fun hchecked => ?_⟩
  · rw [payload_of_notMem hlast]
    omega
  · have hle := hchecked.1 1 long (hread ▸ List.mem_singleton_self _)
    rw [payload_of_notMem hlast] at hle
    omega

end Unitpm.Ipc
