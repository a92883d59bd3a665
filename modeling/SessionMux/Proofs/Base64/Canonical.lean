import SessionMux.Proofs.Base64

/-!
# Only the canonical text is base64

What the decoder accepts is the canonical text of what it comes to: no other symbols, no other pads
and no other spare bits stand for the same bytes. The last group is taken apart first
(`drop_of_readTail`, `drop_of_finish`), then the groups before it along the decoder's recursion.

* **`decode_eq_ok_iff`** — the text of some bytes is decoded to them, and nothing else is;
  `decode_eq_ok_iff_encode` says the same of what the encoder writes.
* `Padded` — how a text is made up of symbols and pads; **`padded_text`** — every text is.
* `Padded.mem`, `Padded.eq_pad`, `Padded.whole_of_append`, `Padded.spare_of_append` — what follows for
  the bytes of a text: the alphabet, where pads stand, how many there are, and the spare bits.
* `bounds_of_mem_text`, `lt_of_mem_decode` — every byte of a text is printable ASCII.
-/

namespace SessionMux.Base64

open Octets

/-! ## Groups -/

section Groups

variable {p q r s : UInt8}

theorem value_first (hp : Six p) (hq : Six q) : (p <<< 2 ||| q >>> 4) >>> 2 = p := by
  obtain ⟨hp₆, hp₇⟩ := hp.bits
  obtain ⟨hq₆, hq₇⟩ := hq.bits
  apply byte_ext <;> simp [*]

theorem value_second (hq : Six q) (hr : Six r) :
    ((p <<< 2 ||| q >>> 4) &&& 3) <<< 4 ||| (q <<< 4 ||| r >>> 2) >>> 4 = q := by
  obtain ⟨hq₆, hq₇⟩ := hq.bits
  obtain ⟨hr₆, hr₇⟩ := hr.bits
  apply byte_ext <;> simp [*]

theorem value_third (hr : Six r) (hs : Six s) :
    ((q <<< 4 ||| r >>> 2) &&& 15) <<< 2 ||| (r <<< 6 ||| s) >>> 6 = r := by
  obtain ⟨hr₆, hr₇⟩ := hr.bits
  obtain ⟨hs₆, hs₇⟩ := hs.bits
  apply byte_ext <;> simp [*]

theorem value_fourth (hs : Six s) : (r <<< 6 ||| s) &&& 63 = s := by
  obtain ⟨hs₆, hs₇⟩ := hs.bits
  apply byte_ext <;> simp [*]

theorem value_secondLast (hq : Six q) (h : q &&& 15 = 0) : ((p <<< 2 ||| q >>> 4) &&& 3) <<< 4 = q := by
  obtain ⟨hq₆, hq₇⟩ := hq.bits
  obtain ⟨h₀, h₁, h₂, h₃⟩ := low_four h
  apply byte_ext <;> simp [*]

theorem value_thirdLast (hr : Six r) (h : r &&& 3 = 0) : ((q <<< 4 ||| r >>> 2) &&& 15) <<< 2 = r := by
  obtain ⟨hr₆, hr₇⟩ := hr.bits
  obtain ⟨h₀, h₁⟩ := low_two h
  apply byte_ext <;> simp [*]

/-- A group without pads. -/
theorem text_group (hp : Six p) (hq : Six q) (hr : Six r) (hs : Six s) (l : List UInt8) :
    text ((p <<< 2 ||| q >>> 4) :: (q <<< 4 ||| r >>> 2) :: (r <<< 6 ||| s) :: l) =
      symbol p :: symbol q :: symbol r :: symbol s :: text l := by
  rw [text, value_first hp hq, value_second hq hr, value_third hr hs, value_fourth hs]

/-- A group with one pad. -/
theorem text_onePad (hp : Six p) (hq : Six q) (hr : Six r) (h : r &&& 3 = 0) :
    text [p <<< 2 ||| q >>> 4, q <<< 4 ||| r >>> 2] = [symbol p, symbol q, symbol r, pad] := by
  rw [text, value_first hp hq, value_second hq hr, value_thirdLast hr h]

/-- A group with two pads. -/
theorem text_twoPads (hp : Six p) (hq : Six q) (h : q &&& 15 = 0) :
    text [p <<< 2 ||| q >>> 4] = [symbol p, symbol q, pad, pad] := by
  rw [text, value_first hp hq, value_secondLast hq h]

end Groups

/-- A byte that has six bits is the symbol of them. -/
theorem symbol_of_value? {c v : UInt8} (h : value? c = some v) : Six v ∧ symbol v = c := by
  have htable : ∀ n < 256, ∀ v ∈ value? (UInt8.ofNat n), v &&& 63 = v ∧ symbol v = UInt8.ofNat n := by
    decide +kernel
  have hc := htable c.toNat c.toNat_lt v
  rw [UInt8.ofNat_toNat] at hc
  exact hc h

/-! ## Only the canonical text is decoded -/

section Accepted

variable {b : ByteArray} {i : Nat}

theorem drop_cons (h : i < b.size) : (toList b).drop i = b[i] :: (toList b).drop (i + 1) :=
  List.drop_eq_getElem_cons (show i < (toList b).length from h)

/-- **What is read of the last group** is symbols and then pads, to the end of the text; behind a pad
there are no symbols. -/
theorem drop_of_readTail {offset : Nat} {t t' : Tail} (h : readTail b i offset t = .ok t') :
    ∃ vs pads, t'.values = t.values ++ vs ∧ t'.pads = t.pads + pads ∧ (∀ v ∈ vs, Six v) ∧
      (t.pads ≠ 0 → vs = []) ∧
      (toList b).drop i = vs.map symbol ++ List.replicate pads pad := by
  fun_induction readTail b i offset t with
  | case1 => cases h
  | case2 i offset t hi hpad ho ih =>
    obtain ⟨vs, pads, hvalues, hpads, -, hnone, hdrop⟩ := ih h
    obtain rfl := hnone (Nat.succ_ne_zero t.pads)
    refine ⟨[], pads + 1, hvalues, ?_, by simp, fun _ => rfl, ?_⟩
    · rw [hpads]
      show t.pads + 1 + pads = _
      omega
    · rw [drop_cons hi, hpad, hdrop, List.replicate_succ]
      rfl
  | case3 => cases h
  | case4 => cases h
  | case5 i offset t hi hpad hp v hv ih =>
    obtain ⟨vs, pads, hvalues, hpads, hsix, -, hdrop⟩ := ih h
    obtain ⟨hv, hsymbol⟩ := symbol_of_value? hv
    refine ⟨v :: vs, pads, ?_, hpads, ?_, fun hne => absurd hne hp, ?_⟩
    · rw [hvalues, List.append_assoc]
      rfl
    · intro x hx
      rcases List.mem_cons.mp hx with rfl | hx
      · exact hv
      · exact hsix x hx
    · rw [drop_cons hi, ← hsymbol, hdrop]
      rfl
  | case6 i offset t hi =>
    cases h
    refine ⟨[], 0, (List.append_nil _).symm, rfl, by simp, fun _ => rfl, ?_⟩
    exact List.drop_eq_nil_of_le (by rw [length_toList]; omega)

/-- **A last group is the text of the bytes that it comes to.** -/
theorem drop_of_finish {out x : ByteArray} (hgroup : b.size ≤ i + 4) (h : finish b i out = .ok x) :
    ∃ l, x = out ++ ofList l ∧ (toList b).drop i = text l := by
  rw [finish] at h
  cases ht : readTail b i 0 {} with
  | error f =>
    rw [ht] at h
    cases h
  | ok t =>
    obtain ⟨vs, pads, hvalues, hpads, hsix, -, hdrop⟩ := drop_of_readTail ht
    have hlen := congrArg List.length hdrop
    rw [List.length_drop, length_toList, List.length_append, List.length_map,
      List.length_replicate] at hlen
    rw [ht] at h
    simp only [bind, Except.bind, hvalues, hpads, List.nil_append, Nat.zero_add] at h
    split at h
    · cases h
    rename_i hlone
    split at h
    · cases h
    rename_i hwhole
    rcases vs with _ | ⟨p, _ | ⟨q, _ | ⟨r, _ | ⟨s, _ | ⟨_, _⟩⟩⟩⟩⟩
    · -- no symbols: the text is empty
      cases h
      obtain rfl : pads = 0 := by
        rw [List.length_nil] at hlone hlen
        omega
      exact ⟨[], ByteArray.append_empty.symm, hdrop⟩
    · rw [List.length_singleton] at hlone hlen
      omega
    · -- two symbols and two pads
      dsimp only at h
      split at h
      · cases h
      rename_i hspare
      cases h
      obtain rfl : pads = 2 := by
        simp at hlen hwhole
        omega
      refine ⟨[_], push_eq out _, ?_⟩
      rw [hdrop, text_twoPads (hsix p (by simp)) (hsix q (by simp)) (by simpa using hspare)]
      rfl
    · -- three symbols and a pad
      dsimp only at h
      split at h
      · cases h
      rename_i hspare
      cases h
      obtain rfl : pads = 1 := by
        simp at hlen hwhole
        omega
      refine ⟨_, push_two out _ _, ?_⟩
      rw [hdrop, text_onePad (hsix p (by simp)) (hsix q (by simp)) (hsix r (by simp))
        (by simpa using hspare)]
      rfl
    · -- four symbols
      cases h
      obtain rfl : pads = 0 := by
        simp at hlen
        omega
      refine ⟨_, push_three out _ _ _, ?_⟩
      rw [hdrop, text_group (hsix p (by simp)) (hsix q (by simp)) (hsix r (by simp))
        (hsix s (by simp))]
      rfl
    · simp at hlen
      omega

/-- **What is decoded group by group is the text of the bytes that it comes to.** -/
theorem drop_of_decodeFrom {out x : ByteArray} (h : decodeFrom b i out = .ok x) :
    ∃ l, x = out ++ ofList l ∧ (toList b).drop i = text l := by
  fun_induction decodeFrom b i out with
  | case1 i out hi p q r s hs hr hq hp ih =>
    obtain ⟨hp, hp'⟩ := symbol_of_value? hp
    obtain ⟨hq, hq'⟩ := symbol_of_value? hq
    obtain ⟨hr, hr'⟩ := symbol_of_value? hr
    obtain ⟨hs, hs'⟩ := symbol_of_value? hs
    obtain ⟨l, rfl, hdrop⟩ := ih h
    refine ⟨[p <<< 2 ||| q >>> 4, q <<< 4 ||| r >>> 2, r <<< 6 ||| s] ++ l, ?_, ?_⟩
    · rw [push_three, append_ofList]
    · show _ = text (_ :: _ :: _ :: l)
      rw [text_group hp hq hr hs, ← hdrop, drop_cons (by omega), drop_cons (by omega),
        drop_cons (by omega), drop_cons (by omega), hp', hq', hr', hs']
  | case2 => cases h
  | case3 => cases h
  | case4 => cases h
  | case5 => cases h
  | case6 i out hi => exact drop_of_finish (by omega) h

end Accepted

/-- **The text of some bytes is decoded to them, and nothing else is decoded.** -/
theorem decode_eq_ok_iff {b x : ByteArray} : decode b = .ok x ↔ toList b = text (toList x) := by
  constructor
  · intro h
    rw [decode] at h
    cases hstray : strayEnd? b with
    | some f =>
      rw [hstray] at h
      cases h
    | none =>
      rw [hstray] at h
      obtain ⟨l, rfl, hdrop⟩ := drop_of_decodeFrom h
      rw [toList_append, toList_ofList]
      exact hdrop
  · intro h
    exact decode_text h

/-- **What is decoded to some bytes is what the encoder writes for them.** -/
theorem decode_eq_ok_iff_encode {b x : ByteArray} : decode b = .ok x ↔ b = (encode x).toUTF8 := by
  rw [decode_eq_ok_iff, ← toList_encode]
  exact ⟨toList_injective, congrArg toList⟩

/-! ## How a text is made up -/

/-- A text is made up of the symbols of `values` and then `pads` pads: together they are whole
groups, there are at most two pads, and the bits that the pads stand for are zero. -/
structure Padded (l values : List UInt8) (pads : Nat) : Prop where
  eq_append : l = values.map symbol ++ List.replicate pads pad
  six : ∀ v ∈ values, Six v
  whole : (values.length + pads) % 4 = 0
  pads_lt : pads < 3
  spare : ∀ v ∈ values.getLast?, (pads = 2 → v &&& 15 = 0) ∧ (pads = 1 → v &&& 3 = 0)

/-- **Every text is made up so.** -/
theorem padded_text (l : List UInt8) : ∃ values pads, Padded (text l) values pads := by
  fun_induction text l with
  | case1 => exact ⟨[], 0, by simp, by simp, by simp, by simp, by simp⟩
  | case2 x =>
    refine ⟨[x >>> 2, (x &&& 3) <<< 4], 2, rfl, ?_, by simp, by simp, ?_⟩
    · simp [six_first, six_secondLast]
    · simp [spare_secondLast]
  | case3 x y =>
    refine ⟨[x >>> 2, (x &&& 3) <<< 4 ||| y >>> 4, (y &&& 15) <<< 2], 1, rfl, ?_, by simp, by simp, ?_⟩
    · simp [six_first, six_second, six_thirdLast]
    · simp [spare_thirdLast]
  | case4 x y z rest ih =>
    obtain ⟨values, pads, h⟩ := ih
    refine ⟨(x >>> 2) :: ((x &&& 3) <<< 4 ||| y >>> 4) :: ((y &&& 15) <<< 2 ||| z >>> 6) ::
      (z &&& 63) :: values, pads, ?_, ?_, ?_, h.pads_lt, ?_⟩
    · rw [h.eq_append]
      rfl
    · simpa [six_first, six_second, six_third, six_fourth] using h.six
    · have hwhole := h.whole
      simp only [List.length_cons]
      omega
    · have hspare := h.spare
      have hwhole := h.whole
      have hpads := h.pads_lt
      cases values with
      | nil =>
        -- without further symbols there are no pads
        simp at hwhole
        omega
      | cons v values => simpa using hspare

/-! ## The bytes of a text -/

section Bytes

variable {l values : List UInt8} {pads : Nat} {c : UInt8}

/-- Pads are no symbols. -/
theorem Padded.getLast?_ne (h : Padded l values pads) :
    (values.map symbol).getLast? ≠ some pad := by
  intro hlast
  obtain ⟨v, hv, hpad⟩ := List.mem_map.mp (List.mem_of_getLast? hlast)
  exact (symbol_of_six (h.six v hv)).2.1 hpad

/-- Every byte is a symbol or a pad. -/
theorem Padded.mem (h : Padded l values pads) (hc : c ∈ l) : c = pad ∨ (value? c).isSome := by
  rw [h.eq_append] at hc
  rcases List.mem_append.mp hc with hc | hc
  · obtain ⟨v, hv, rfl⟩ := List.mem_map.mp hc
    rw [(symbol_of_six (h.six v hv)).1]
    exact .inr rfl
  · exact .inl (List.eq_of_mem_replicate hc)

/-- Behind a pad there are pads only. -/
theorem Padded.eq_pad (h : Padded l values pads) {front back : List UInt8}
    (hl : l = front ++ pad :: back) (hc : c ∈ back) : c = pad := by
  have hnot : ∀ v ∈ values, symbol v ≠ pad := fun v hv => (symbol_of_six (h.six v hv)).2.1
  have heq := h.eq_append.symm.trans hl
  clear h hl
  induction values generalizing front with
  | nil =>
    have hmem : c ∈ [].map symbol ++ List.replicate pads pad := by
      rw [heq]
      simp [hc]
    exact List.eq_of_mem_replicate hmem
  | cons v values ih =>
    cases front with
    | nil => exact absurd (List.cons.inj heq).1 (hnot v List.mem_cons_self)
    | cons x front =>
      exact ih (fun u hu => hnot u (List.mem_cons_of_mem v hu)) (List.cons.inj heq).2

/-- The pads at the end of some bytes, and what stands before them, are told apart by the bytes. -/
theorem pads_unique {l m : List UInt8} {k n : Nat} (hl : l.getLast? ≠ some pad)
    (hm : m.getLast? ≠ some pad) (h : l ++ List.replicate k pad = m ++ List.replicate n pad) :
    l = m ∧ k = n := by
  induction k generalizing n with
  | zero =>
    cases n with
    | zero => exact ⟨by simpa using h, rfl⟩
    | succ n =>
      rw [List.replicate_zero, List.append_nil] at h
      rw [h, List.replicate_succ', ← List.append_assoc, List.getLast?_concat] at hl
      exact absurd rfl hl
  | succ k ih =>
    cases n with
    | zero =>
      rw [List.replicate_zero, List.append_nil] at h
      rw [← h, List.replicate_succ', ← List.append_assoc, List.getLast?_concat] at hm
      exact absurd rfl hm
    | succ n =>
      rw [List.replicate_succ', List.replicate_succ', ← List.append_assoc, ← List.append_assoc] at h
      obtain ⟨rfl, rfl⟩ := ih (List.append_cancel_right h)
      exact ⟨rfl, rfl⟩

/-- **The number of the pads** follows from what stands before them. -/
theorem Padded.whole_of_append (h : Padded l values pads) {front : List UInt8} {n : Nat}
    (hl : l = front ++ List.replicate n pad) (hlast : front.getLast? ≠ some pad) :
    (front.length + n) % 4 = 0 ∧ n < 3 := by
  obtain ⟨rfl, rfl⟩ := pads_unique hlast h.getLast?_ne (hl.symm.trans h.eq_append)
  rw [List.length_map]
  exact ⟨h.whole, h.pads_lt⟩

/-- **The last symbol before the pads** has no spare bits. -/
theorem Padded.spare_of_append (h : Padded l values pads) {front : List UInt8} {n : Nat} {v : UInt8}
    (hv : value? c = some v) (hl : l = front ++ [c] ++ List.replicate n pad) :
    (n = 2 → v &&& 15 = 0) ∧ (n = 1 → v &&& 3 = 0) := by
  have hpad : c ≠ pad := by
    rintro rfl
    cases hv
  have hlast : (front ++ [c]).getLast? ≠ some pad := by
    rw [List.getLast?_concat]
    exact fun hc => hpad (Option.some.inj hc)
  obtain ⟨hfront, rfl⟩ := pads_unique hlast h.getLast?_ne (hl.symm.trans h.eq_append)
  have hc : values.getLast?.map symbol = some c := by
    rw [← List.getLast?_map, ← hfront, List.getLast?_concat]
  obtain ⟨u, hu, rfl⟩ := Option.map_eq_some_iff.mp hc
  obtain rfl : u = v := by
    rw [(symbol_of_six (h.six u (List.mem_of_getLast? hu))).1] at hv
    exact Option.some.inj hv
  exact h.spare u hu

end Bytes

/-- Every byte of a text is ASCII, and above the controls. -/
theorem bounds_of_mem_text {l : List UInt8} {c : UInt8} (h : c ∈ text l) : 43 ≤ c ∧ c < 128 := by
  obtain ⟨values, pads, hpadded⟩ := padded_text l
  rcases hpadded.mem h with rfl | hc
  · decide
  · rw [value?] at hc
    grind

theorem lt_of_mem_decode {b x : ByteArray} (h : decode b = .ok x) {c : UInt8} (hc : c ∈ toList b) :
    c < 128 := by
  rw [decode_eq_ok_iff.mp h] at hc
  exact (bounds_of_mem_text hc).2

end SessionMux.Base64
