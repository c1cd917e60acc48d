import Mathlib.Data.Set.Basic
import Unitpm.Lib.Frames

/-! # Messages on a stream that breaks off

Messages are written as lines, one after another, and any write may fail after some of its bytes;
what is written next follows directly.  A reader that starts anywhere takes the bytes up to the next
separator as a line.

`Texts` is what a text format has to do with this.  Its texts are self-delimiting: what begins like
a text reads as a message only if it is the whole of it, and a beginning of a text that comes later
in a line is the whole line, up to blanks.  Then a line that starts where a message starts reads as
a message only if it is this message (`text_of_decode`, and `rest_of_decode` for what is behind it),
and a line that starts anywhere if it is a whole message or lies within one (`source_of_decode`). -/

namespace Torn

open Frames

section Pieces

variable {M R β : Type}

/-- What has been written of the line of a message: a beginning, with or without the separator. -/
def Part (text : M → List β) (sep : β) (m : M) (p : List β) : Prop :=
  p ≠ [] ∧ ∃ t, t <+: text m ∧ (p = t ∨ p = t ++ [sep])

/-- Parts of messages, one after another. -/
def Parts (ms : Set M) (text : M → List β) (sep : β) (ps : List (M × List β)) : Prop :=
  ∀ p ∈ ps, p.1 ∈ ms ∧ Part text sep p.1 p.2

/-- What is on the stream. -/
def stream (ps : List (M × List β)) : List β := (ps.map Prod.snd).flatten

/-- So much of the line of a message has been written. -/
def push (m : M) (bytes : List β) (ps : List (M × List β)) : List (M × List β) :=
  if bytes = [] then ps else ps ++ [(m, bytes)]

/-- Each of these begins like a text. -/
def Beginnings (ms : Set M) (text : M → List β) (qs : List (List β)) : Prop :=
  ∀ q ∈ qs, q ≠ [] ∧ ∃ m ∈ ms, q <+: text m

/-- A text format whose messages are lines. -/
structure Texts (ms : Set M) (text : M → List β) (sep : β) (decode : List β → Option R) :
    Prop where
  ne_nil : ∀ m ∈ ms, text m ≠ []
  notMem : ∀ m ∈ ms, sep ∉ text m
  decode_sep : ∀ l, decode (l ++ [sep]) = decode l
  decode_prefix : ∀ m ∈ ms, ∀ t, t <+: text m → t ≠ text m → decode t = none
  decode_joined : ∀ m ∈ ms, ∀ t, t ≠ [] → t <+: text m → ∀ qs, qs ≠ [] →
    Beginnings ms text qs → decode (t ++ qs.flatten) = none
  decode_behind : ∀ m ∈ ms, ∀ y, y <:+: text m → ∀ qs, qs ≠ [] → Beginnings ms text qs →
    ∀ r, decode (y ++ qs.flatten) = some r → decode qs.flatten = some r

variable {ms : Set M} {text : M → List β} {sep : β} {ps : List (M × List β)}
  {p : M × List β}

@[simp] theorem stream_nil : stream ([] : List (M × List β)) = [] := rfl

@[simp] theorem stream_cons (p : M × List β) (ps : List (M × List β)) :
    stream (p :: ps) = p.2 ++ stream ps := rfl

@[simp] theorem stream_append (ps qs : List (M × List β)) :
    stream (ps ++ qs) = stream ps ++ stream qs := by
  unfold stream
  rw [List.map_append, List.flatten_append]

theorem stream_push (m : M) (bytes : List β) (ps : List (M × List β)) :
    stream (push m bytes ps) = stream ps ++ bytes := by
  unfold push
  split_ifs with hnil
  · rw [hnil, List.append_nil]
  · rw [stream_append, stream_cons, stream_nil, List.append_nil]

theorem push_append (m : M) (bytes : List β) (ps qs : List (M × List β)) :
    push m bytes (ps ++ qs) = ps ++ push m bytes qs := by
  unfold push
  split_ifs
  · rfl
  · rw [List.append_assoc]

theorem mem_push {m : M} {bytes : List β} (hp : p ∈ push m bytes ps) :
    p ∈ ps ∨ p = (m, bytes) ∧ bytes ≠ [] := by
  unfold push at hp
  split_ifs at hp with hnil
  · exact .inl hp
  · rw [List.mem_append, List.mem_singleton] at hp
    exact hp.imp_right fun hp => ⟨hp, hnil⟩

theorem subset_push (m : M) (bytes : List β) (ps : List (M × List β)) :
    ps ⊆ push m bytes ps := by
  unfold push
  split_ifs
  · exact List.Subset.refl ps
  · exact List.subset_append_left ps _

theorem beginnings_of_parts (hps : Parts ms text sep ps) {qs : List (List β)}
    (hqs : ∀ q ∈ qs, q ≠ [] ∧ ∃ p ∈ ps, q <+: text p.1) : Beginnings ms text qs := by
  intro q hq
  obtain ⟨hne, p, hp, hqp⟩ := hqs q hq
  exact ⟨hne, p.1, (hps p hp).1, hqp⟩

theorem Texts.notMem_of_infix {R : Type} {decode : List β → Option R}
    (h : Texts ms text sep decode) {m : M} (hm : m ∈ ms) {y : List β} (hy : y <:+: text m) :
    sep ∉ y :=
  fun hmem => h.notMem m hm (hy.subset hmem)

/-- The end of what has been written: nothing, or the end of one part and the parts behind it. -/
theorem suffix_stream {y : List β} (hy : y <:+ stream ps) :
    y = [] ∨ ∃ p qs z, p :: qs <:+ ps ∧ z ≠ [] ∧ z <:+ p.2 ∧ y = z ++ stream qs := by
  induction ps with
  | nil => exact .inl (List.suffix_nil.mp hy)
  | cons p ps ih =>
      obtain ⟨x, hx⟩ := hy
      have hrest : y <:+ stream ps → y = [] ∨
          ∃ p' qs z, p' :: qs <:+ p :: ps ∧ z ≠ [] ∧ z <:+ p'.2 ∧ y = z ++ stream qs := by
        intro hy
        rcases ih hy with hnil | ⟨q, qs, z, hq, hz⟩
        · exact .inl hnil
        · exact .inr ⟨q, qs, z, hq.trans (List.suffix_cons p ps), hz⟩
      rcases List.append_eq_append_iff.mp hx with ⟨z, hp, hy⟩ | ⟨c, -, hc⟩
      · by_cases hz : z = []
        · apply hrest
          rw [hy, hz]
          exact List.suffix_refl _
        · exact .inr ⟨p, ps, z, List.suffix_refl _, hz, ⟨x, hp.symm⟩, hy⟩
      · exact hrest ⟨c, hc.symm⟩

end Pieces

/-! ### Lines that read as messages -/

namespace Texts

variable {M R β : Type} [DecidableEq β] {ms : Set M} {text : M → List β} {sep : β}
  {decode : List β → Option R} {ps old new : List (M × List β)} {p : M × List β} {r : R}
  (h : Texts ms text sep decode)
include h

/-- The first line of what has been written is put together of beginnings. -/
theorem cut_parts (hps : Parts ms text sep ps) :
    ∃ qs : List (List β), (∀ q ∈ qs, q ≠ [] ∧ ∃ p ∈ ps, q <+: text p.1) ∧
      ((cut sep (stream ps)).1 = qs.flatten ∨ (cut sep (stream ps)).1 = qs.flatten ++ [sep]) := by
  induction ps with
  | nil => exact ⟨[], by simp, .inl rfl⟩
  | cons p ps ih =>
      obtain ⟨⟨hm, hne, t, ht, hp⟩, hps⟩ := List.forall_mem_cons.mp hps
      have htn := h.notMem_of_infix hm ht.isInfix
      rw [stream_cons]
      rcases hp with hp | hp
      · obtain ⟨qs, hqs, hcut⟩ := ih hps
        refine ⟨t :: qs, ?_, ?_⟩
        · rw [List.forall_mem_cons]
          refine ⟨⟨hp ▸ hne, p, List.mem_cons_self, ht⟩, fun q hq => ?_⟩
          obtain ⟨hqne, p', hp', hqp⟩ := hqs q hq
          exact ⟨hqne, p', List.mem_cons_of_mem p hp', hqp⟩
        · rw [hp, cut_append htn, List.flatten_cons, List.append_assoc, List.append_cancel_left_eq,
            List.append_cancel_left_eq]
          exact hcut
      · rw [hp, List.append_assoc, List.singleton_append, cut_append_sep htn]
        by_cases hnil : t = []
        · exact ⟨[], by simp, .inr (by rw [hnil]; rfl)⟩
        · refine ⟨[t], ?_, .inr (by simp)⟩
          rw [List.forall_mem_singleton]
          exact ⟨hnil, p, List.mem_cons_self, ht⟩

theorem decode_cut (hps : Parts ms text sep ps) {y : List β} (hy : sep ∉ y)
    (hr : decode (cut sep (y ++ stream ps)).1 = some r) :
    ∃ qs : List (List β), (∀ q ∈ qs, q ≠ [] ∧ ∃ p ∈ ps, q <+: text p.1) ∧
      decode (y ++ qs.flatten) = some r := by
  obtain ⟨qs, hqs, hcut⟩ := h.cut_parts hps
  refine ⟨qs, hqs, ?_⟩
  rw [cut_append hy] at hr
  rcases hcut with hcut | hcut
  · rwa [hcut] at hr
  · rwa [hcut, ← List.append_assoc, h.decode_sep] at hr

theorem text_eq_of_decode {m : M} (hm : m ∈ ms) {t : List β} (ht : t <+: text m)
    (hr : decode t = some r) : t = text m := by
  by_contra hne
  rw [h.decode_prefix m hm t ht hne] at hr
  cases hr

theorem whole_of_decode (hps : Parts ms text sep ps) {qs : List (List β)} (hnil : qs ≠ [])
    (hqs : ∀ q ∈ qs, q ≠ [] ∧ ∃ p ∈ ps, q <+: text p.1) (hr : decode qs.flatten = some r) :
    ∃ p ∈ ps, decode (text p.1) = some r := by
  rcases qs with _ | ⟨q, qs⟩
  · exact absurd rfl hnil
  · obtain ⟨⟨hne, p, hp, hq⟩, hqs⟩ := List.forall_mem_cons.mp hqs
    have hm := (hps p hp).1
    rw [List.flatten_cons] at hr
    rcases qs with _ | ⟨q', qs⟩
    · rw [List.flatten_nil, List.append_nil] at hr
      exact ⟨p, hp, h.text_eq_of_decode hm hq hr ▸ hr⟩
    · have hbegin := beginnings_of_parts hps hqs
      rw [h.decode_joined p.1 hm q hne hq _ (List.cons_ne_nil q' qs) hbegin] at hr
      cases hr

/-- A line from the start of what has been written that reads as a message is the whole text of the
first message. -/
theorem text_of_decode (hps : Parts ms text sep (p :: ps))
    (hr : decode (cut sep (stream (p :: ps))).1 = some r) : decode (text p.1) = some r := by
  obtain ⟨⟨hm, hne, t, ht, hp⟩, hps⟩ := List.forall_mem_cons.mp hps
  have htn := h.notMem_of_infix hm ht.isInfix
  have hdecode : decode t = some r := by
    rw [stream_cons] at hr
    rcases hp with hp | hp
    · rw [hp] at hr hne
      obtain ⟨qs, hqs, hr⟩ := h.decode_cut hps htn hr
      by_cases hnil : qs = []
      · rwa [hnil, List.flatten_nil, List.append_nil] at hr
      · rw [h.decode_joined p.1 hm t hne ht qs hnil (beginnings_of_parts hps hqs)] at hr
        cases hr
    · rwa [hp, List.append_assoc, List.singleton_append, cut_append_sep htn, h.decode_sep] at hr
  exact h.text_eq_of_decode hm ht hdecode ▸ hdecode

theorem infix_of_decode (hps : Parts ms text sep (p :: ps)) {z : List β} (hne : z ≠ [])
    (hz : z <:+ p.2) (hr : decode (cut sep (z ++ stream ps)).1 = some r) :
    (∃ y, y <:+: text p.1 ∧ decode y = some r) ∨ ∃ q ∈ ps, decode (text q.1) = some r := by
  obtain ⟨⟨hm, -, t, ht, hp⟩, hps⟩ := List.forall_mem_cons.mp hps
  rcases hp with hp | hp
  · have hzt : z <:+: text p.1 := (hp ▸ hz).isInfix.trans ht.isInfix
    have hzn := h.notMem_of_infix hm hzt
    obtain ⟨qs, hqs, hr⟩ := h.decode_cut hps hzn hr
    by_cases hnil : qs = []
    · rw [hnil, List.flatten_nil, List.append_nil] at hr
      exact .inl ⟨z, hzt, hr⟩
    · right
      have hbegin := beginnings_of_parts hps hqs
      exact h.whole_of_decode hps hnil hqs (h.decode_behind p.1 hm z hzt qs hnil hbegin r hr)
  · rw [hp] at hz
    obtain ⟨y, rfl, hy⟩ := (List.suffix_concat_iff.mp hz).resolve_left hne
    have hyt : y <:+: text p.1 := hy.isInfix.trans ht.isInfix
    have hyn := h.notMem_of_infix hm hyt
    rw [List.append_assoc, List.singleton_append, cut_append_sep hyn, h.decode_sep] at hr
    exact .inl ⟨y, hyt, hr⟩

/-- A line that reads as a message, for a reader that starts anywhere in what had been written: it
is part of a message of that time, or the whole of one. -/
theorem source_of_decode (hold : Parts ms text sep old) (hnew : Parts ms text sep new)
    {y : List β} (hy : y <:+ stream old) (hne : y ++ stream new ≠ [])
    (hr : decode (cut sep (y ++ stream new)).1 = some r) :
    (∃ p ∈ old, ∃ l, l <:+: text p.1 ∧ decode l = some r) ∨
      ∃ p ∈ old ++ new, decode (text p.1) = some r := by
  rcases suffix_stream hy with rfl | ⟨p, qs, z, hsuf, hz, hzp, rfl⟩
  · right
    rcases new with _ | ⟨p, new⟩
    · exact absurd rfl hne
    · exact ⟨p, by simp, h.text_of_decode hnew hr⟩
  · have hall : Parts ms text sep (p :: (qs ++ new)) := by
      intro q hq
      rw [← List.cons_append, List.mem_append] at hq
      exact hq.elim (fun hq => hold q (hsuf.subset hq)) (hnew q)
    rw [List.append_assoc, ← stream_append] at hr
    rcases h.infix_of_decode hall hz hzp hr with hpart | ⟨q, hq, hr⟩
    · exact .inl ⟨p, hsuf.subset List.mem_cons_self, hpart⟩
    · right
      refine ⟨q, ?_, hr⟩
      rw [List.mem_append] at hq ⊢
      exact hq.imp_left fun hq => hsuf.subset (List.mem_cons_of_mem p hq)

/-- Where a separator only follows a whole text, what is behind a line that reads as a message is
what was written behind it. -/
theorem rest_of_decode (hps : ∀ q ∈ p :: ps, q.1 ∈ ms ∧ q.2 ≠ [] ∧ q.2 <+: text q.1 ++ [sep])
    (hr : decode (cut sep (stream (p :: ps))).1 = some r) :
    decode (text p.1) = some r ∧ (cut sep (stream (p :: ps))).2 = stream ps := by
  have hparts : Parts ms text sep (p :: ps) := by
    intro q hq
    obtain ⟨hm, hne, hq⟩ := hps q hq
    rcases List.prefix_concat_iff.mp hq with hq | hq
    · exact ⟨hm, hne, text q.1, List.prefix_refl _, .inr hq⟩
    · exact ⟨hm, hne, q.2, hq, .inl rfl⟩
  refine ⟨h.text_of_decode hparts hr, ?_⟩
  obtain ⟨⟨hm, hne, hp⟩, hps⟩ := List.forall_mem_cons.mp hps
  rw [stream_cons] at hr ⊢
  rcases List.prefix_concat_iff.mp hp with hp | hp
  · rw [hp, List.append_assoc, List.singleton_append, cut_append_sep (h.notMem p.1 hm)]
  · have hpn := h.notMem_of_infix hm hp.isInfix
    rcases ps with _ | ⟨q, ps⟩
    · rw [stream_nil, List.append_nil, cut_of_notMem hpn]
    · -- behind a torn text there is the beginning of the next one
      exfalso
      obtain ⟨b, l, hbl⟩ := List.exists_cons_of_ne_nil (hps q List.mem_cons_self).2.1
      have hb : b ≠ sep := by
        rintro rfl
        obtain ⟨hqm, -, hq⟩ := hps q List.mem_cons_self
        obtain ⟨c, k, hck⟩ := List.exists_cons_of_ne_nil (h.ne_nil q.1 hqm)
        rw [hbl, hck, List.cons_append, List.cons_prefix_cons] at hq
        exact h.notMem q.1 hqm (by rw [hck, hq.1]; exact List.mem_cons_self)
      obtain ⟨qs, hqs, hcut⟩ := h.cut_parts (List.forall_mem_cons.mp hparts).2
      have hnil : qs ≠ [] := by
        rintro rfl
        rw [stream_cons, hbl, List.cons_append, cut, if_neg hb] at hcut
        rcases hcut with hcut | hcut
        · cases hcut
        · exact hb (List.head_eq_of_cons_eq hcut)
      have hbegin := beginnings_of_parts (List.forall_mem_cons.mp hparts).2 hqs
      have hjoined := h.decode_joined p.1 hm p.2 hne hp qs hnil hbegin
      rw [cut_append hpn] at hr
      rcases hcut with hcut | hcut
      · rw [hcut, hjoined] at hr
        cases hr
      · rw [hcut, ← List.append_assoc, h.decode_sep, hjoined] at hr
        cases hr

end Texts

section Wholes

variable {M R β : Type} {ms : Set M} {text : M → List β} {sep a : β}
  {decode : List β → Option R} {wholes : List (List β)}

theorem append_notMem_of_count [DecidableEq β] (hcount : ∀ w ∈ wholes, w.count a = 1)
    {x y : List β} (hx : a ∈ x) (hy : a ∈ y) : x ++ y ∉ wholes := by
  intro hw
  have h₁ := List.count_pos_iff.mpr hx
  have h₂ := List.count_pos_iff.mpr hy
  have hsum := hcount _ hw
  rw [List.count_append] at hsum
  omega

theorem mem_of_decode [DecidableEq β]
    (hdecode : ∀ l, l.filter (· ≠ sep) ∉ wholes → decode l = none) {l : List β} {r : R}
    (hl : sep ∉ l) (hr : decode l = some r) : l ∈ wholes := by
  by_contra hw
  rw [hdecode l] at hr
  · cases hr
  · rwa [List.filter_eq_self.mpr]
    intro b hb
    simpa using ne_of_mem_of_not_mem hb hl

theorem mem_of_begins (hhead : ∀ w ∈ wholes, w.head? = some a)
    (htext : ∀ m, text m ∈ wholes ∨ text m = [a]) {m : M} {t : List β} (ht : t ≠ [])
    (htm : t <+: text m) : a ∈ t := by
  obtain ⟨b, l, rfl⟩ := List.exists_cons_of_ne_nil ht
  rcases htext m with hm | hm
  · obtain ⟨k, hk⟩ := htm
    have hfirst := hhead _ hm
    rw [← hk, List.cons_append, List.head?_cons, Option.some.injEq] at hfirst
    rw [hfirst]
    exact List.mem_cons_self
  · rw [hm, List.cons_prefix_cons] at htm
    rw [htm.1]
    exact List.mem_cons_self

theorem flatten_of_beginnings (hbegin : ∀ m t, t ≠ [] → t <+: text m → a ∈ t)
    (hnot : ∀ m, sep ∉ text m) {qs : List (List β)} (hqs : qs ≠ [])
    (hall : Beginnings ms text qs) : a ∈ qs.flatten ∧ sep ∉ qs.flatten := by
  constructor
  · obtain ⟨q, l, rfl⟩ := List.exists_cons_of_ne_nil hqs
    obtain ⟨hq, m, -, hqm⟩ := hall q List.mem_cons_self
    exact List.mem_append_left _ (hbegin m q hq hqm)
  · intro hs
    obtain ⟨q, hq, hs⟩ := List.mem_flatten.mp hs
    obtain ⟨-, m, -, hqm⟩ := hall q hq
    exact hnot m (hqm.subset hs)

/-- The laws hold of a format in which `wholes` alone read as messages, if they begin like all
texts, a text begins nowhere else in them, and none of them is the beginning of another. -/
theorem texts_of_wholes [DecidableEq β] (ms : Set M) (wholes : List (List β)) (a : β)
    (hcount : ∀ w ∈ wholes, w.count a = 1) (hhead : ∀ w ∈ wholes, w.head? = some a)
    (hsep : ∀ w ∈ wholes, sep ∉ w) (hne : a ≠ sep)
    (hapart : ∀ w ∈ wholes, ∀ w' ∈ wholes, w <+: w' → w = w')
    (hsingle : [a] ∉ wholes) (htext : ∀ m, text m ∈ wholes ∨ text m = [a])
    (hdecode : ∀ l, l.filter (· ≠ sep) ∉ wholes → decode l = none)
    (hstrip : ∀ l, decode (l ++ [sep]) = decode l) : Texts ms text sep decode := by
  have hnil : [] ∉ wholes := fun h => by cases hhead [] h
  have hnot : ∀ m, sep ∉ text m := by
    intro m
    rcases htext m with hm | hm
    · exact hsep _ hm
    · rw [hm]
      simpa using hne.symm
  have hbegin : ∀ m t, t ≠ [] → t <+: text m → a ∈ t := fun _ _ => mem_of_begins hhead htext
  constructor
  · intro m _ hm
    rcases htext m with h | h
    · exact hnil (hm ▸ h)
    · rw [h] at hm
      cases hm
  · exact fun m _ => hnot m
  · exact hstrip
  · -- the beginnings of a text
    intro m _ t ht htm
    cases hr : decode t with
    | none => rfl
    | some r =>
        exfalso
        have hw := mem_of_decode hdecode (fun hs => hnot m (ht.subset hs)) hr
        rcases htext m with hm | hm
        · exact htm (hapart t hw _ hm ht)
        · rw [hm] at ht
          rcases List.prefix_cons_iff.mp ht with h | ⟨l, h, hl⟩
          · exact hnil (h ▸ hw)
          · rw [List.prefix_nil.mp hl] at h
            exact hsingle (h ▸ hw)
  · intro m _ t ht htm qs hqs hall
    obtain ⟨hin, hout⟩ := flatten_of_beginnings hbegin hnot hqs hall
    cases hr : decode (t ++ qs.flatten) with
    | none => rfl
    | some r =>
        refine absurd (mem_of_decode hdecode ?_ hr)
          (append_notMem_of_count hcount (hbegin m t ht htm) hin)
        rw [List.mem_append, not_or]
        exact ⟨fun hs => hnot m (htm.subset hs), hout⟩
  · intro m _ y hy qs hqs hall r hr
    obtain ⟨hin, hout⟩ := flatten_of_beginnings hbegin hnot hqs hall
    rcases y with _ | ⟨b, y⟩
    · exact hr
    · exfalso
      have hw : b :: y ++ qs.flatten ∈ wholes := by
        refine mem_of_decode hdecode ?_ hr
        rw [List.mem_append, not_or]
        exact ⟨fun hs => hnot m (hy.subset hs), hout⟩
      refine append_notMem_of_count hcount ?_ hin hw
      have hfirst := hhead _ hw
      rw [List.cons_append, List.head?_cons, Option.some.injEq] at hfirst
      rw [hfirst]
      exact List.mem_cons_self

end Wholes

end Torn
