import Mathlib.Order.Bounds.Basic
import SessionMux.Transport.Retry

/-!
# How often a host is dialled

A host is dialled until an attempt settles the matter, by success or by a fault that another attempt
would meet again, or until the attempts that are allowed are used up; the first attempt is always
allowed. Between two attempts there is one pause, and the last outcome is the answer.

* `Settles` — the outcome of an attempt after which there is none.
* `connectChecked` — the same dialling with a counter that may not leave its 32 bits.
* `exists_connectFrom` — where dialling stops, from an attempt of any number on.
* **`exists_tries`** — the number of attempts and all that hangs on it, for every allowance, pause and
  sequence of outcomes.
-/

namespace SessionMux

/-- A fault that may be gone at the next attempt: the host could not be reached, or was too slow. -/
inductive MuxFault.Passing : MuxFault → Prop
  | connection (reason : String) : Passing (.connection reason)
  | requestTimeout (label : String) (milliseconds : UInt64) :
      Passing (.requestTimeout label milliseconds)

theorem MuxFault.isRetryable_iff (f : MuxFault) : f.isRetryable = true ↔ f.Passing := by
  constructor
  · intro h
    cases f with
    | connection reason => exact .connection reason
    | requestTimeout label milliseconds => exact .requestTimeout label milliseconds
    | _ => cases h
  · rintro (⟨⟩ | ⟨⟩) <;> rfl

section Retry

variable {α : Type}

/-- An outcome that settles the matter: a success, or a fault that does not pass. -/
def Settles (o : Except MuxFault α) : Prop := ∀ f, o = .error f → ¬ f.Passing

theorem settles_ok (a : α) : Settles (.ok a : Except MuxFault α) := nofun

theorem settles_error_iff (f : MuxFault) :
    Settles (.error f : Except MuxFault α) ↔ f.isRetryable = false := by
  rw [← Bool.not_eq_true, f.isRetryable_iff]
  exact ⟨fun h => h f rfl, fun h g hg => by cases hg; exact h⟩

/-- So many attempts, with a pause between any two. -/
def dials (delay k : Nat) : List ConnectAct :=
  (List.replicate k .dial).intersperse (.pause delay)

theorem dials_succ_succ (delay k : Nat) :
    dials delay (k + 2) = .dial :: .pause delay :: dials delay (k + 1) := rfl

theorem count_dial (delay k : Nat) : (dials delay k).count .dial = k := by
  induction k with
  | zero => rfl
  | succ k ih =>
    cases k with
    | zero => rfl
    | succ k =>
      have hne : ConnectAct.pause delay ≠ .dial := by simp
      rw [dials_succ_succ, List.count_cons_self, List.count_cons_of_ne hne, ih]

theorem count_pause (delay k : Nat) : (dials delay k).count (.pause delay) = k - 1 := by
  induction k with
  | zero => rfl
  | succ k ih =>
    cases k with
    | zero => rfl
    | succ k =>
      have hne : ConnectAct.dial ≠ .pause delay := by simp
      rw [dials_succ_succ, List.count_cons_of_ne hne, List.count_cons_self, ih]
      rfl

/-- The attempts from the one of a number on, where the counter is checked: there is no result if
counting an attempt would take more than 32 bits. -/
def connectChecked (attempts : UInt32) (delay : Nat) (outcome : Nat → Except MuxFault α)
    (attempt : UInt32) : Option (Except MuxFault α × List ConnectAct) :=
  match outcome (attempt.toNat - 1) with
  | .ok a => some (.ok a, [.dial])
  | .error f =>
    if f.isRetryable ∧ attempt < attempts then
      if _h : attempt.toNat + 1 < UInt32.size then
        (connectChecked attempts delay outcome (UInt32.ofNatLT (attempt.toNat + 1) _h)).map
          fun p => (p.1, .dial :: .pause delay :: p.2)
      else none
    else some (.error f, [.dial])
termination_by UInt32.size - attempt.toNat
decreasing_by
  rw [UInt32.toNat_ofNatLT]
  omega

/-- The numbers, from `first` on, at which dialling may stop: as many attempts as are allowed have
been made, or the attempt of this number has settled the matter. -/
def stops (attempts : Nat) (outcome : Nat → Except MuxFault α) (first : Nat) : Set Nat :=
  {k | first ≤ k ∧ (k = max attempts 1 ∨ Settles (outcome (k - 1)))}

section Steps

variable {attempts delay n k : Nat} {outcome : Nat → Except MuxFault α}

theorem isLeast_stops_self (h : n = max attempts 1 ∨ Settles (outcome (n - 1))) :
    IsLeast (stops attempts outcome n) n :=
  ⟨⟨Nat.le_refl n, h⟩, fun _ hk => hk.1⟩

/-- An attempt that settles nothing, with another one allowed, is not the last. -/
theorem isLeast_stops_of_succ (hmax : n ≠ max attempts 1) (hgoes : ¬ Settles (outcome (n - 1)))
    (h : IsLeast (stops attempts outcome (n + 1)) k) : IsLeast (stops attempts outcome n) k := by
  refine ⟨⟨Nat.le_of_succ_le h.1.1, h.1.2⟩, fun m hm => ?_⟩
  rcases Nat.eq_or_lt_of_le hm.1 with rfl | hlt
  · exact absurd hm.2 (not_or_intro hmax hgoes)
  · exact h.2 ⟨hlt, hm.2⟩

theorem dials_of_lt (h : n < k) :
    dials delay (k + 1 - n) = .dial :: .pause delay :: dials delay (k + 1 - (n + 1)) := by
  obtain ⟨m, rfl⟩ := Nat.exists_eq_add_of_lt h
  rw [show n + m + 1 + 1 - n = m + 2 from by omega, dials_succ_succ,
    show n + m + 1 + 1 - (n + 1) = m + 1 from by omega]

theorem dials_self : dials delay (n + 1 - n) = [.dial] := by
  rw [Nat.add_sub_cancel_left]
  rfl

end Steps

/-- **From an attempt of any number on**: where dialling stops, what comes of it, and that the counter
stays within its bits. -/
theorem exists_connectFrom (attempts : UInt32) (delay : Nat) (outcome : Nat → Except MuxFault α)
    (attempt : UInt32) (hpos : 1 ≤ attempt.toNat) (hle : attempt.toNat ≤ max attempts.toNat 1) :
    ∃ k, IsLeast (stops attempts.toNat outcome attempt.toNat) k ∧
      connectFrom attempts delay outcome attempt =
        (outcome (k - 1), dials delay (k + 1 - attempt.toNat)) ∧
      connectChecked attempts delay outcome attempt =
        some (connectFrom attempts delay outcome attempt) := by
  fun_induction connectFrom attempts delay outcome attempt with
  | case1 attempt a ho =>
    refine ⟨_, isLeast_stops_self (.inr (ho ▸ settles_ok a)), ?_, ?_⟩
    · rw [ho, dials_self]
    · rw [connectChecked, ho]
  | case2 attempt f ho hf hlt r acts hrec ih =>
    have hbound : attempts.toNat < UInt32.size := attempts.toNat_lt
    have hlt' := UInt32.lt_iff_toNat_lt.mp hlt
    have hroom : attempt.toNat + 1 < UInt32.size := by omega
    have hnext : (attempt + 1).toNat = attempt.toNat + 1 := by
      rw [UInt32.toNat_add]
      exact Nat.mod_eq_of_lt hroom
    have hcount : UInt32.ofNatLT (attempt.toNat + 1) hroom = attempt + 1 :=
      UInt32.toNat_inj.mp (by rw [UInt32.toNat_ofNatLT, hnext])
    obtain ⟨k, hleast, hfrom, hchecked⟩ :=
      ih (by rw [hnext]; omega) (by rw [hnext]; omega)
    rw [hnext] at hleast hfrom
    have hmax : attempt.toNat ≠ max attempts.toNat 1 := by omega
    refine ⟨k, isLeast_stops_of_succ hmax ?_ hleast, ?_, ?_⟩
    · rw [ho, settles_error_iff, hf]
      exact nofun
    · obtain ⟨rfl, rfl⟩ := Prod.mk.inj (hrec.symm.trans hfrom)
      rw [dials_of_lt hleast.1.1]
    · rw [connectChecked, ho]
      simp only [hf, hlt, and_self, if_true, dif_pos hroom, hcount, hchecked, hrec, Option.map_some]
  | case3 attempt f ho hf hlt =>
    have hge := UInt32.lt_iff_toNat_lt.not.mp hlt
    have hmax : attempt.toNat = max attempts.toNat 1 := by omega
    refine ⟨_, isLeast_stops_self (.inl hmax), ?_, ?_⟩
    · rw [ho, dials_self]
    · rw [connectChecked, ho]
      exact if_neg fun h => hlt h.2
  | case4 attempt f ho hf =>
    refine ⟨_, isLeast_stops_self (.inr ?_), ?_, ?_⟩
    · rw [ho, settles_error_iff, ← Bool.not_eq_true]
      exact hf
    · rw [ho, dials_self]
    · rw [connectChecked, ho]
      exact if_neg fun h => hf h.1

/-- **What connecting comes to**: the number `k` of attempts, and all that hangs on it. -/
structure Tries (attempts : UInt32) (delay : Nat) (outcome : Nat → Except MuxFault α) (k : Nat) :
    Prop where
  /-- It is the least number from one on at which the attempts that are allowed are used up, where
  none counts as one, or the matter is settled. -/
  least : IsLeast {k | 1 ≤ k ∧ (k = max attempts.toNat 1 ∨ Settles (outcome (k - 1)))} k
  /-- The answer is the outcome of the last attempt, as it is. -/
  answer : (connectWithRetry attempts delay outcome).1 = outcome (k - 1)
  /-- There are `k` attempts, with a pause between any two of them and nowhere else, … -/
  acts : (connectWithRetry attempts delay outcome).2 =
    (List.replicate k .dial).intersperse (.pause delay)
  /-- … so that the host is dialled `k` times … -/
  dialled : (connectWithRetry attempts delay outcome).2.count .dial = k
  /-- … and there is one pause less. -/
  paused : (connectWithRetry attempts delay outcome).2.count (.pause delay) = k - 1
  /-- The counter of the attempts never leaves its 32 bits. -/
  counted : connectChecked attempts delay outcome 1 = some (connectWithRetry attempts delay outcome)

/-- **A host is dialled until an attempt settles the matter or the allowed attempts are used up**,
whatever the allowance, the pause and the outcomes. -/
theorem exists_tries (attempts : UInt32) (delay : Nat) (outcome : Nat → Except MuxFault α) :
    ∃ k, Tries attempts delay outcome k := by
  obtain ⟨k, hleast, hfrom, hchecked⟩ := exists_connectFrom attempts delay outcome 1 (Nat.le_refl 1)
    (Nat.le_max_right _ 1)
  have hacts : (connectWithRetry attempts delay outcome).2 = dials delay k :=
    congrArg Prod.snd hfrom
  exact ⟨k, {
    least := hleast
    answer := congrArg Prod.fst hfrom
    acts := hacts
    dialled := by rw [hacts, count_dial]
    paused := by rw [hacts, count_pause]
    counted := hchecked }⟩

/-- Three attempts at a host that refuses. -/
example : connectWithRetry 3 40 (fun _ => (.error (.connection "refused") : Except MuxFault Unit)) =
    (.error (.connection "refused"), [.dial, .pause 40, .dial, .pause 40, .dial]) := by
  rw [connectWithRetry, connectFrom, connectFrom, connectFrom]
  rfl

end Retry

end SessionMux
