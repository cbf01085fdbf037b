import Mathlib.Data.Finsupp.Basic
import Mathlib.Tactic.Abel
import VitaDebugger.RelyGuarantee

/-! A quantity of the shared state that calls move. A call owes a fixed amount when it
starts and pays it off in its actions, whatever the other threads do in between; so the
quantity and what the running calls still owe always add up to what was charged. -/

namespace VitaDebugger.CallLedger
open AtomicProgram RelyGuarantee Rules Function

variable {ι κ σ ω α β G : Type} [AddCommGroup G] {value : σ → G}

variable (value) in
/-- `p` owes `due` and still owes `left a` when it ends with `a`. -/
def Pays : Prog σ ω α → G → (α → G) → Prop
  | .ret a, due, left => due = left a
  | .act u n, due, left => ∀ s w, Pays (n s w) (due - (value (u s w) - value s)) left

variable {due : G} {left : α → G}

theorem Pays.bind {p : Prog σ ω α} {f : α → Prog σ ω β} {last : β → G}
    (hf : Pays value p due left) (hr : ∀ a, Pays value (f a) (left a) last) :
    Pays value (p >>= f) due last := by
  induction p generalizing due with
  | ret a =>
    cases hf
    exact hr a
  | act u n ih => exact fun s w => ih s w (hf s w)

theorem pays_perform {f : σ → ω → α × σ}
    (hm : ∀ s w, value (f s w).2 + left (f s w).1 = value s + due) :
    Pays value (Prog.perform f) due left := fun s w => by
  change due - (value (f s w).2 - value s) = left (f s w).1
  rw [sub_sub_eq_add_sub, sub_eq_iff_eq_add, add_comm due, add_comm (left _)]
  exact (hm s w).symm

theorem pays_still {f : σ → ω → α × σ} (hs : ∀ s w, value (f s w).2 = value s) :
    Pays value (Prog.perform f) due fun _ => due :=
  pays_perform fun s w => by rw [hs]

theorem pays_ite {c : Prop} [Decidable c] {p q : Prog σ ω α} (yes : c → Pays value p due left)
    (no : ¬c → Pays value q due left) : Pays value (if c then p else q) due left := by
  by_cases h : c
  · rw [if_pos h]
    exact yes h
  · rw [if_neg h]
    exact no h

theorem sum_update (o : ι →₀ G) (i : ι) (due : G) :
    (o.update i due).sum (fun _ due => due) + o i = o.sum (fun _ due => due) + due :=
  Finsupp.sum_update_add o i due (fun _ due => due) (fun _ => rfl) fun _ _ _ => rfl

variable [DecidableEq ι]

/-- A run with the calls made in it, the first call first. -/
inductive Called (body : ι → κ → Prog σ ω Unit) (within : σ → Prop) (start : σ) :
    List κ → Config ι σ ω → Prop
  | init : Called body within start [] ⟨start, fun _ => pure ()⟩
  | call {calls : List κ} {c : Config ι σ ω} (before : Called body within start calls c) (i : ι)
      (k : κ) (idle : c.running i = pure ()) :
      Called body within start (calls ++ [k]) ⟨c.shared, update c.running i (body i k)⟩
  | act {calls : List κ} {c : Config ι σ ω} (before : Called body within start calls c) (i : ι)
      {u : σ → ω → σ} {n : σ → ω → Prog σ ω Unit} (here : c.running i = .act u n) (w : ω)
      (inside : within (u c.shared w)) :
      Called body within start calls ⟨u c.shared w, update c.running i (n c.shared w)⟩

variable {body : ι → κ → Prog σ ω Unit} {within : σ → Prop} {start : σ} {cs : List κ}
  {c : Config ι σ ω}

theorem Called.runWithin (hi : within start) (hc : Called body within start cs c) :
    within c.shared ∧ RunWithin (fun i _ p => ∃ k, p = body i k) within start c := by
  induction hc with
  | init => exact ⟨hi, .init⟩
  | call hb i k hid ih => exact ⟨ih.1, ih.2.step (.call i _ hid ⟨k, rfl⟩) ih.1⟩
  | act hb i hh w hi ih => exact ⟨hi, ih.2.step (.act i hh w) hi⟩

/-- The quantity and the debts of the running calls. -/
structure Balanced (value : σ → G) (total : G) (c : Config ι σ ω) (owed : ι →₀ G) : Prop where
  pays : ∀ i, Pays value (c.running i) (owed i) fun _ => 0
  sum : value c.shared + owed.sum (fun _ due => due) = total

variable {s : σ}

theorem Balanced.update {t : G} {o : ι →₀ G} (balanced : Balanced value t c o) {i : ι}
    {p : Prog σ ω Unit} (charge : G) (pays : Pays value p due fun _ => 0)
    (moved : value s + due = value c.shared + o i + charge) :
    Balanced value (t + charge) ⟨s, update c.running i p⟩ (o.update i due) where
  pays j := by
    by_cases hs : j = i
    · subst hs
      simpa using pays
    · simpa [Finsupp.update_apply, hs] using balanced.pays j
  sum := by
    calc value s + (o.update i due).sum (fun _ due => due)
        = value s + (o.sum (fun _ due => due) + due - o i) := by
          rw [eq_sub_of_add_eq (sum_update o i due)]
      _ = value s + due + o.sum (fun _ due => due) - o i := by abel
      _ = value c.shared + o.sum (fun _ due => due) + charge := by
          rw [moved]
          abel
      _ = t + charge := by rw [balanced.sum]

theorem Called.balanced {cost : κ → G} (hbo : ∀ i k, Pays value (body i k) (cost k) fun _ => 0)
    (hc : Called body within start cs c) :
    ∃ o, Balanced value (value start + (cs.map cost).sum) c o := by
  induction hc with
  | init => exact ⟨0, fun i => rfl, by simp⟩
  | @call cs c hbe i k hi ih =>
    obtain ⟨o, hb⟩ := ih
    have hp : o i = 0 := by
      have own := hb.pays i
      rwa [hi] at own
    have ha := hb.update (s := c.shared) (cost k) (hbo i k) (by
      rw [hp, add_zero])
    rw [List.map_append, List.sum_append, ← add_assoc]
    exact ⟨_, by simpa using ha⟩
  | @act cs c hbe i u n hh w hin ih =>
    obtain ⟨o, hb⟩ := ih
    have own := hb.pays i
    rw [hh] at own
    have ha := hb.update (s := u c.shared w) 0 (own c.shared w) (by abel)
    rw [add_zero] at ha
    exact ⟨_, ha⟩

theorem Called.settled {cost : κ → G} (hb : ∀ i k, Pays value (body i k) (cost k) fun _ => 0)
    (hc : Called body within start cs c) (hq : ∀ i, c.running i = pure ()) :
    value c.shared = value start + (cs.map cost).sum := by
  obtain ⟨owed, hp, sum⟩ := hc.balanced hb
  have hn : owed = 0 := by
    ext i
    have own := hp i
    rwa [hq i] at own
  rwa [hn, Finsupp.sum_zero_index, add_zero] at sum

/-! Runs of one call after the other, which can be evaluated. -/

/-- One call run to its end against a script of answers. -/
def execWithin (within : σ → Prop) [DecidablePred within] : Prog σ ω α → List ω → σ → Option σ
  | .ret _, _, s => some s
  | .act _ _, [], _ => none
  | .act u n, w :: script, s =>
    if within (u s w) then execWithin within (n s w) script (u s w) else none

def serve (body : ι → κ → Prog σ ω Unit) (within : σ → Prop) [DecidablePred within] :
    List (ι × κ × List ω) → σ → Option σ
  | [], s => some s
  | (i, k, script) :: rest, s =>
    (execWithin within (body i k) script s).bind (serve body within rest)

theorem Called.exec [DecidablePred within] {i : ι} {p : Prog σ ω Unit} {script : List ω} {t : σ}
    {r : ι → Prog σ ω Unit}
    (hc : Called body within start cs ⟨s, update r i p⟩)
    (hd : execWithin within p script s = some t) :
    Called body within start cs ⟨t, update r i (pure ())⟩ := by
  induction p generalizing script s with
  | ret a =>
    cases hd
    exact hc
  | act u n ih =>
    cases script with
    | nil => cases hd
    | cons w script =>
      simp only [execWithin] at hd
      split at hd
      · next hi =>
        have next := hc.act i (update_self i _ r) w hi
        rw [update_idem] at next
        exact ih s w next hd
      · cases hd

theorem Called.serve [DecidablePred within] {ts : List (ι × κ × List ω)} {t : σ}
    (hc : Called body within start cs ⟨s, fun _ => pure ()⟩)
    (hs : CallLedger.serve body within ts s = some t) :
    Called body within start (cs ++ ts.map (·.2.1)) ⟨t, fun _ => pure ()⟩ := by
  induction ts generalizing cs s with
  | nil =>
    cases hs
    simpa using hc
  | cons turn ts ih =>
    obtain ⟨i, k, script⟩ := turn
    obtain ⟨u, hd, hr⟩ := Option.bind_eq_some_iff.mp hs
    have he := (hc.call i k rfl).exec hd
    rw [update_eq_self] at he
    simpa using ih he hr

end VitaDebugger.CallLedger
