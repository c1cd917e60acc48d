import Unitpm.Selectors

/-! # The ids that `unitpm list` prints

`internal/cli/commands/list/mod.rs`: the processes of a namespace, and the length to which their ids
are cut.  `short_id_len` looks at the rows that are shown, while `resolve_id` looks at the whole
registry, so a printed id is taken back only where nothing outside the rows begins with it
(`shortIds_resolve_iff`). -/

namespace Unitpm

open Rust.Str Utf8

/-! ### The command -/

/-- `filter_processes`. -/
def filterProcesses (processes : List ProcessInfo) (filter : String) : List ProcessInfo :=
  if filter = "" then processes
  else processes.filter fun p => (if p.ns = "" then defaultNamespace else p.ns) == filter

/-- `if id.len() > l { &id[..l] } else { id }`; `none` where the slice panics. -/
def idPrefix (l : ℕ) (id : String) : Option (List Char) :=
  if byteLen id.toList > l then (splitAtByte l id.toList).map Prod.fst else some id.toList

/-- The inner loop of `short_id_len`: whether a prefix comes a second time. -/
def collide (l : ℕ) : List (List Char) → List String → Option Bool
  | _, [] => some false
  | seen, id :: ids =>
      match idPrefix l id with
      | none => none
      | some pre => if pre ∈ seen then some true else collide l (pre :: seen) ids

/-- `MIN_LEN`. -/
def minLen : ℕ := 8

/-- The outer loop of `short_id_len`. -/
def firstLen (ids : List String) : List ℕ → Option ℕ
  | [] => some 36
  | l :: ls =>
      match collide l [] ids with
      | none => none
      | some true => firstLen ids ls
      | some false => some l

/-- `short_id_len`. -/
def shortIdLen (processes : List ProcessInfo) : Option ℕ :=
  if processes.length ≤ 1 then some minLen
  else firstLen (processes.map ProcessInfo.id) (List.range' minLen 29)

/-- The cell of the id column that `render_to` hands to the table for a row without `--long`.  The
table may still shrink or wrap it. -/
def printedId (processes : List ProcessInfo) (p : ProcessInfo) : Option String :=
  (shortIdLen processes).bind fun w => (idPrefix w p.id).map String.ofList

/-! ### The length -/

/-- A text of ASCII characters, as every text of a UUID is. -/
def Ascii (id : String) : Prop := ∀ c ∈ id.toList, c.utf8Size = 1

instance (id : String) : Decidable (Ascii id) :=
  List.decidableBAll (fun c : Char => c.utf8Size = 1) id.toList

/-- Two different ids agree on their first `l` characters. -/
def Agree (ids : List String) (l : ℕ) : Prop :=
  ∃ a ∈ ids, ∃ b ∈ ids, a ≠ b ∧ a.toList.take l = b.toList.take l

/-- The length at which ids are told apart: the least one from 8 to 36 at which no two agree, or
36. -/
structure ShortLen (ids : List String) (k : ℕ) : Prop where
  min : minLen ≤ k
  max : k ≤ 36
  agree : ∀ l, minLen ≤ l → l < k → Agree ids l
  differ : k < 36 → ¬ Agree ids k

theorem ShortLen.unique {ids : List String} {k m : ℕ} (hk : ShortLen ids k) (hm : ShortLen ids m) :
    k = m := by
  rcases Nat.lt_trichotomy k m with hlt | heq | hgt
  · exact absurd (hm.agree k hk.min hlt) (hk.differ (lt_of_lt_of_le hlt hm.max))
  · exact heq
  · exact absurd (hk.agree m hm.min hgt) (hm.differ (lt_of_lt_of_le hgt hk.max))

theorem idPrefix_of_ascii {id : String} (h : Ascii id) (l : ℕ) :
    idPrefix l id = some (id.toList.take l) := by
  have hlen : byteLen id.toList = id.toList.length := byteLen_eq_length h
  unfold idPrefix
  split_ifs with hl
  · have htake : byteLen (id.toList.take l) = l := by
      rw [byteLen_eq_length fun c hc => h c (List.mem_of_mem_take hc), List.length_take]
      omega
    have hs := splitAtByte_append (id.toList.take l) (id.toList.drop l)
    rw [htake, List.take_append_drop] at hs
    rw [hs]
    rfl
  · rw [List.take_of_length_le (by omega)]

/-- The inner loop finds whether the prefixes are distinct and new. -/
theorem collide_eq {ids : List String} (h : ∀ id ∈ ids, Ascii id) (l : ℕ)
    (seen : List (List Char)) : ∃ b, collide l seen ids = some b ∧
      (b = false ↔ (ids.map fun id => id.toList.take l).Nodup ∧
        ∀ id ∈ ids, id.toList.take l ∉ seen) := by
  induction ids generalizing seen with
  | nil => exact ⟨false, rfl, by simp⟩
  | cons id ids ih =>
      obtain ⟨hid, hids⟩ := List.forall_mem_cons.mp h
      rw [collide, idPrefix_of_ascii hid]
      simp only
      split_ifs with hmem
      · refine ⟨true, rfl, ?_⟩
        simp [hmem]
      · obtain ⟨b, hb, hiff⟩ := ih hids (id.toList.take l :: seen)
        refine ⟨b, hb, hiff.trans ?_⟩
        simp only [List.map_cons, List.nodup_cons, List.mem_cons, List.mem_map, not_or, not_exists,
          not_and, forall_eq_or_imp]
        constructor
        · rintro ⟨hn, hall⟩
          exact ⟨⟨fun x hx => (hall x hx).1, hn⟩, hmem, fun x hx => (hall x hx).2⟩
        · rintro ⟨⟨hnew, hn⟩, -, hall⟩
          exact ⟨hn, fun x hx => ⟨hnew x hx, hall x hx⟩⟩

/-- For distinct ids a repeated prefix is that of two of them. -/
theorem collide_iff_agree {ids : List String} (hn : ids.Nodup) (h : ∀ id ∈ ids, Ascii id) (l : ℕ) :
    ∃ b, collide l [] ids = some b ∧ (b = true ↔ Agree ids l) := by
  obtain ⟨b, hb, hiff⟩ := collide_eq h l []
  refine ⟨b, hb, ?_⟩
  have hnodup : (ids.map fun id => id.toList.take l).Nodup ↔ ¬ Agree ids l := by
    rw [List.nodup_map_iff_inj_on hn]
    constructor
    · rintro hinj ⟨a, ha, c, hc, hne, he⟩
      exact hne (hinj a ha c hc he)
    · intro hna a ha c hc he
      by_contra hne
      exact hna ⟨a, ha, c, hc, hne, he⟩
  cases b with
  | true =>
      refine ⟨fun _ => ?_, fun _ => rfl⟩
      by_contra hna
      exact absurd (hiff.mpr ⟨hnodup.mpr hna, by simp⟩) (by decide)
  | false =>
      refine ⟨fun e => absurd e (by decide), fun ha => ?_⟩
      exact absurd ha (hnodup.mp (hiff.mp rfl).1)

/-- The outer loop, where the lengths below `a` have been tried. -/
theorem firstLen_spec {ids : List String} (hn : ids.Nodup) (h : ∀ id ∈ ids, Ascii id) {a n : ℕ}
    (ha : minLen ≤ a) (hlen : a + n = 37) (htried : ∀ l, minLen ≤ l → l < a → Agree ids l) :
    ∃ k, firstLen ids (List.range' a n) = some k ∧ ShortLen ids k := by
  induction n generalizing a with
  | zero =>
      refine ⟨36, rfl, by decide, le_refl _, fun l hl hlt => htried l hl (by omega), ?_⟩
      exact fun hlt => absurd hlt (lt_irrefl _)
  | succ n ih =>
      obtain ⟨b, hb, hiff⟩ := collide_iff_agree hn h a
      rw [List.range'_succ, firstLen, hb]
      cases b with
      | true =>
          apply ih (by omega) (by omega)
          intro l hl hlt
          rcases Nat.lt_succ_iff_lt_or_eq.mp hlt with hlt | rfl
          · exact htried l hl hlt
          · exact hiff.mp rfl
      | false => exact ⟨a, rfl, ha, by omega, htried, fun _ hagree => by cases hiff.mpr hagree⟩

theorem shortIdLen_spec {processes : List ProcessInfo} (hn : (processes.map ProcessInfo.id).Nodup)
    (h : ∀ p ∈ processes, Ascii p.id) :
    ∃ k, shortIdLen processes = some k ∧ ShortLen (processes.map ProcessInfo.id) k := by
  unfold shortIdLen
  split_ifs with hlen
  · refine ⟨minLen, rfl, Nat.le_refl _, Nat.le_of_ble_eq_true rfl, ?_, ?_⟩
    · exact fun l hl hlt => absurd hlt (Nat.not_lt.mpr hl)
    · rintro - ⟨a, ha, b, hb, hne, -⟩
      cases processes with
      | nil => cases ha
      | cons p ps =>
          obtain rfl : ps = [] := List.length_eq_zero_iff.mp (by simpa using hlen)
          exact hne ((List.mem_singleton.mp ha).trans (List.mem_singleton.mp hb).symm)
  · refine firstLen_spec hn ?_ (le_refl _) rfl fun l hl hlt => absurd hlt (Nat.not_lt.mpr hl)
    rintro id hid
    obtain ⟨p, hp, rfl⟩ := List.mem_map.mp hid
    exact h p hp

/-! ### Resolving what was printed -/

/-- The first `k` characters of an id select its process: the id has no more than these, or no other
registered id begins with them.  With a `:` among them, as in the `urn:uuid:` form, they are read as
`ns:name`. -/
def Daemon.Addressable (d : Daemon) (k : ℕ) (id : String) : Prop :=
  match splitOnceAt ':' (String.ofList (id.toList.take k)) with
  | some (ns, name) => d.Only (fun _ p => p.info.ns == ns && p.info.name == name) id
  | none => id.toList.length ≤ k ∨
      ∀ other p, d.processes.lookup other = some p → id.toList.take k <+: other.toList → other = id

theorem startsWith_ofList {pre : List Char} {s : String} :
    startsWith (String.ofList pre) s = true ↔ pre <+: s.toList := by
  rw [startsWith, String.toList_ofList, List.isPrefixOf_iff_prefix]

/-- For a registered id, `Addressable` is what `resolve_id` asks of its first `k` characters. -/
theorem Daemon.selects_take_iff {d : Daemon} {k : ℕ} {id : String} {p : Process}
    (hp : d.processes.lookup id = some p) :
    d.Selects (String.ofList (id.toList.take k)) id ↔ d.Addressable k id := by
  unfold Addressable
  cases hs : splitOnceAt ':' (String.ofList (id.toList.take k)) with
  | some e =>
      obtain ⟨ns, name⟩ := e
      constructor
      · rintro (⟨ns', name', hs', honly⟩ | ⟨hs', -, -⟩ | ⟨hs', -, -⟩ | ⟨hs', -, -, -⟩)
        · obtain ⟨rfl, rfl⟩ := Prod.mk.inj (Option.some.inj (hs.symm.trans hs'))
          exact honly
        all_goals cases hs.symm.trans hs'
      · exact .qualified ns name hs
  | none =>
      have hself : id.toList.take k <+: id.toList := List.take_prefix k id.toList
      constructor
      · rintro (⟨ns', name', hs', -⟩ | ⟨-, heq, -⟩ | ⟨-, -, honly⟩ | ⟨-, -, hpre, -⟩)
        · cases hs.symm.trans hs'
        · left
          have hlen := congrArg (fun t => t.toList.length) heq
          simp only [String.toList_ofList, List.length_take] at hlen
          omega
        · exact Or.inr fun other q hq hpre => honly.2 other q hq (startsWith_ofList.mpr hpre)
        · exact absurd (startsWith_ofList.mpr hself) (by simp [hpre id p hp])
      · rintro (hle | honly)
        · have heq : String.ofList (id.toList.take k) = id := by
            rw [List.take_of_length_le hle, String.ofList_toList]
          exact .whole hs heq (by rw [hp]; rfl)
        · cases hq : d.processes.lookup (String.ofList (id.toList.take k)) with
          | some q =>
              have heq : String.ofList (id.toList.take k) = id :=
                honly _ q hq (by rw [String.toList_ofList])
              exact .whole hs heq (by rw [hp]; rfl)
          | none =>
              refine .byPrefix hs hq ⟨⟨p, hp, startsWith_ofList.mpr hself⟩, ?_⟩
              intro other q hq hpre
              exact honly other q hq (startsWith_ofList.mp hpre)

theorem Daemon.nodup_ids_list (h : Host) (d : Daemon) :
    ((d.list h).map ProcessInfo.id).Nodup := by
  have heq : (d.list h).map ProcessInfo.id = (h.iter d.processes.entries).map Prod.fst := by
    unfold list
    rw [List.map_map]
    apply List.map_congr_left
    intro e he
    exact d.processes.keyed e.1 e.2 ((h.mem_iter _).mp he)
  rw [heq]
  exact h.nodup_keys_iter _

theorem filterProcesses_sublist (processes : List ProcessInfo) (filter : String) :
    List.Sublist (filterProcesses processes filter) processes := by
  unfold filterProcesses
  split_ifs
  · exact List.Sublist.refl _
  · exact List.filter_sublist

/-- **Printed ids.**  Every id that `list` prints under a filter resolves to the process of its row
exactly when, with `k` the length at which the rows differ, the first `k` characters of each row's
id select that process in the whole registry. -/
theorem shortIds_resolve_iff (h h' : Host) (d : Daemon) (filter : String)
    (hreg : ∀ id p, d.processes.lookup id = some p → Ascii id) :
    (∀ p ∈ filterProcesses (d.list h) filter, ∃ short,
        printedId (filterProcesses (d.list h) filter) p = some short ∧
        d.resolveId h' short = .ok p.id) ↔
      ∀ k, ShortLen ((filterProcesses (d.list h) filter).map ProcessInfo.id) k →
        ∀ p ∈ filterProcesses (d.list h) filter, d.Addressable k p.id := by
  have hsub := filterProcesses_sublist (d.list h) filter
  have hlook : ∀ p ∈ filterProcesses (d.list h) filter, ∃ q, d.processes.lookup p.id = some q := by
    intro p hp
    obtain ⟨q, hq, -⟩ := Daemon.mem_list.mp (hsub.mem hp)
    exact ⟨q, hq⟩
  have hascii : ∀ p ∈ filterProcesses (d.list h) filter, Ascii p.id := by
    intro p hp
    obtain ⟨q, hq⟩ := hlook p hp
    exact hreg p.id q hq
  obtain ⟨k, hk, hshort⟩ := shortIdLen_spec ((d.nodup_ids_list h).sublist (hsub.map _)) hascii
  have hrow : ∀ p ∈ filterProcesses (d.list h) filter,
      (∃ short, printedId (filterProcesses (d.list h) filter) p = some short ∧
        d.resolveId h' short = .ok p.id) ↔ d.Addressable k p.id := by
    intro p hp
    obtain ⟨q, hq⟩ := hlook p hp
    have hprint : printedId (filterProcesses (d.list h) filter) p =
        some (String.ofList (p.id.toList.take k)) := by
      rw [printedId, hk, Option.bind_some, idPrefix_of_ascii (hascii p hp), Option.map_some]
    rw [hprint, ← Daemon.selects_take_iff hq, ← Daemon.resolveId_ok_iff (h := h')]
    constructor
    · rintro ⟨short, he, hr⟩
      obtain rfl := Option.some.inj he
      exact hr
    · exact fun hr => ⟨_, rfl, hr⟩
  constructor
  · intro hall m hm p hp
    obtain rfl := hshort.unique hm
    exact (hrow p hp).mp (hall p hp)
  · intro hall p hp
    exact (hrow p hp).mpr (hall k hshort p hp)

/-- An id generated within the same minute as `demoId`. -/
def twinId : String := "0190b5a0-1000-7000-8000-000000000002"

/-- A daemon that has started one process in each of two namespaces. -/
def twins : Daemon :=
  [(userHost, Op.startWithSpec { plainSpec demoId with ns := some "a" }),
    (userHost, Op.startWithSpec { plainSpec twinId with ns := some "b" })].foldl Daemon.step
    (.fresh 0 none ∅)

theorem mem_keys_twins {id : String} {p : Process} (hp : twins.processes.lookup id = some p) :
    id ∈ [twinId, demoId] := by
  have hkeys : twins.processes.entries.keys = [twinId, demoId] := by decide +kernel
  rw [← hkeys]
  exact AList.mem_keys.mp (AList.lookup_isSome.mp (Option.isSome_of_eq_some hp))

theorem ascii_of_twins (id : String) (p : Process) (hp : twins.processes.lookup id = some p) :
    Ascii id := by
  have htwin : Ascii twinId := by decide +kernel
  have hdemo : Ascii demoId := by decide +kernel
  have hall : ∀ id ∈ [twinId, demoId], Ascii id := by simp [htwin, hdemo]
  exact hall id (mem_keys_twins hp)

theorem shortLen_twins : ShortLen [twinId, demoId] 10 where
  min := by decide
  max := by decide
  agree l hl hlt := by
    have h8 : minLen = 8 := rfl
    obtain rfl | rfl : l = 8 ∨ l = 9 := by omega
    all_goals
      exact ⟨twinId, List.mem_cons_self, demoId, List.mem_cons_of_mem _ List.mem_cons_self,
        by decide +kernel, by decide +kernel⟩
  differ _ := by
    unfold Agree
    decide +kernel

theorem shortIds_resolve_twins :
    (filterProcesses (twins.list userHost) "").map ProcessInfo.id = [twinId, demoId] ∧
      ∀ p ∈ filterProcesses (twins.list userHost) "", ∃ short,
        printedId (filterProcesses (twins.list userHost) "") p = some short ∧
        twins.resolveId userHost short = .ok p.id := by
  have hids : (filterProcesses (twins.list userHost) "").map ProcessInfo.id = [twinId, demoId] := by
    decide +kernel
  refine ⟨hids, (shortIds_resolve_iff userHost userHost twins "" ascii_of_twins).mpr ?_⟩
  intro k hk p hp
  rw [hids] at hk
  obtain rfl := hk.unique shortLen_twins
  have hmem := List.mem_map_of_mem hp (f := ProcessInfo.id)
  rw [hids] at hmem
  have honly : ∀ id ∈ [twinId, demoId], ∀ other ∈ [twinId, demoId],
      id.toList.take 10 <+: other.toList → other = id := by decide +kernel
  have hsplit : ∀ id ∈ [twinId, demoId],
      splitOnceAt ':' (String.ofList (id.toList.take 10)) = none := by decide +kernel
  unfold Daemon.Addressable
  rw [hsplit p.id hmem]
  exact Or.inr fun other q hq hpre => honly p.id hmem other (mem_keys_twins hq) hpre

/-- The ids of a namespace are told apart from each other only: a process of another namespace that
was created within the same minute makes them ambiguous. -/
theorem shortIds_of_namespace_ambiguous :
    ∃ p ∈ filterProcesses (twins.list userHost) "a",
      printedId (filterProcesses (twins.list userHost) "a") p = some "0190b5a0" ∧
      (twins.resolveId userHost "0190b5a0").isOk = false := by
  decide +kernel

end Unitpm
