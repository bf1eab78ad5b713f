import Mathlib.Data.List.Basic

/-! # Machines that answer

A machine takes inputs one after the other, answers each of them and moves to a
next state. `session` pairs the inputs with their answers. Inputs that leave the
state as it is can be left out without anybody noticing (`session_filter`), and a
log that grows by what is read off each answer is what is read off all of them
(`log_session`). -/
namespace Axionvera.Lib.Mealy

variable {σ ι ο ε : Type} {next : σ → ι → ο × σ}

def session (next : σ → ι → ο × σ) (s : σ) : List ι → List (ι × ο) × σ
  | [] => ([], s)
  | i :: rest =>
    let later := session next (next s i).2 rest
    ((i, (next s i).1) :: later.1, later.2)

theorem session_filter {keep : ι → Bool} {inputs : List ι}
    (hkeep : ∀ i ∈ inputs, keep i = false → ∀ s, (next s i).2 = s) (s : σ) :
    session next s (inputs.filter keep) =
      ((session next s inputs).1.filter fun entry => keep entry.1, (session next s inputs).2) := by
  induction inputs generalizing s with
  | nil => rfl
  | cons i rest ih =>
    have hrest := ih (fun j hj => hkeep j (List.mem_cons_of_mem i hj)) (next s i).2
    cases hi : keep i with
    | true => simp [session, hi, hrest]
    | false =>
      have hsame := hkeep i List.mem_cons_self hi s
      rw [hsame] at hrest
      simp [session, hi, hsame, hrest]

theorem log_session {log : σ → List ε} {entry : ι × ο → Option ε} {inputs : List ι}
    (hlog : ∀ i ∈ inputs, ∀ s, log (next s i).2 = log s ++ (entry (i, (next s i).1)).toList)
    (s : σ) :
    log (session next s inputs).2 = log s ++ (session next s inputs).1.filterMap entry := by
  induction inputs generalizing s with
  | nil => simp [session]
  | cons i rest ih =>
    have hrest := ih (fun j hj => hlog j (List.mem_cons_of_mem i hj)) (next s i).2
    have hi := hlog i List.mem_cons_self s
    simp only [session, hrest, hi, List.filterMap_cons]
    cases entry (i, (next s i).1) <;> simp

end Axionvera.Lib.Mealy
