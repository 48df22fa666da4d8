-- What a read takes from a pipe or from the console and what it delivers: the
-- index moves before the byte is copied, so a copy that fails loses its byte.
import Xv6.Console
import Xv6.Pipe

open List

namespace xv6.lost

/-! ## The pipe -/

section Pipe

open cells pipe

/-- The second loop of `piperead` from byte `i` on, for a process that holds the lock; `copyout` says
which bytes of the user's buffer can be written. -/
def pipereadLoop (p : Nat) (n : Int) (copyout : Nat → Bool) : Nat → Nat → State → State
  | 0, _, s => s
  | fuel + 1, i, s =>
    let t := pipe.piperead s p n i (if copyout i = true then some 0 else none)
    if (t.proc p).pc = .reading n (i + 1) then pipereadLoop p n copyout fuel (i + 1) t else t

/-- The loop from its start, with a round for every byte asked for and one to end it. -/
def piperead (s : State) (p : Nat) (n : Int) (copyout : Nat → Bool) : State :=
  pipereadLoop p n copyout (n.toNat + 1) 0 s

def waiting (s : State) : Nat := (s.pi.nwrite - s.pi.nread).toNat

/-- The bytes that go from `s` to `t`: those taken from the pipe and those delivered. -/
structure Piped (s t : State) (taken given : Nat) : Prop where
  nread : t.pi.nread = s.pi.nread + BitVec.ofNat 32 taken
  delivered : t.delivered.length = s.delivered.length + given

variable {s : State} {p i fuel : Nat} {n : Int} {copyout : Nat → Bool}

lemma waiting_next (h : s.pi.nread ≠ s.pi.nwrite) :
    (s.pi.nwrite - (s.pi.nread + 1)).toNat + 1 = waiting s := by
  unfold waiting
  bv_omega

lemma Piped.next {t u : State} {taken given : Nat} (h : Piped s t 1 1) (h' : Piped t u taken given) :
    Piped s u (taken + 1) (given + 1) := by
  constructor
  · rw [h'.nread, h.nread]
    bv_omega
  · rw [h'.delivered, h.delivered]
    omega

lemma pipereadLoop_copied (p fuel : Nat) (hn : (i : Int) < n)
    (hw : s.pi.nread ≠ s.pi.nwrite)
    (hc : copyout i = true) : ∃ t, Piped s t 1 1 ∧ waiting t + 1 = waiting s ∧
      pipereadLoop p n copyout (fuel + 1) i s = pipereadLoop p n copyout fuel (i + 1) t := by
  refine ⟨pipe.piperead s p n i (some 0), ?_, ?_, ?_⟩
  · simp only [pipe.piperead, hn, hw, ne_eq, not_false_eq_true, and_self, if_true]
    exact ⟨rfl, by simp⟩
  · simp only [pipe.piperead, hn, hw, ne_eq, not_false_eq_true, and_self, if_true]
    exact waiting_next hw
  · simp [pipereadLoop, pipe.piperead, hn, hw, hc, State.setPc]

lemma pipereadLoop_counts (hfuel : n < i + fuel) : ∃ taken given,
    Piped s (pipereadLoop p n copyout fuel i s) taken given ∧ taken ≤ waiting s ∧
      (taken = given ↔ ∀ k : Nat, i + k < n → k < waiting s → copyout (i + k) = true) := by
  induction fuel generalizing i s with
  | zero => exact ⟨0, 0, ⟨by simp [pipereadLoop], rfl⟩, Nat.zero_le _, by simp; omega⟩
  | succ fuel ih =>
    by_cases hmore : (i : Int) < n ∧ s.pi.nread ≠ s.pi.nwrite
    · obtain ⟨hn, hw⟩ := hmore
      by_cases hc : copyout i = true
      · obtain ⟨t, hone, hnext, hloop⟩ := pipereadLoop_copied p fuel hn hw hc
        obtain ⟨taken, given, hp, hle, hiff⟩ := ih (i := i + 1) (s := t) (by push_cast; omega)
        rw [hloop]
        refine ⟨taken + 1, given + 1, hone.next hp, by omega, ?_⟩
        rw [Nat.add_right_cancel_iff, hiff]
        constructor
        · intro h k hk hlt
          cases k with
          | zero => exact hc
          | succ k =>
            rw [Nat.add_succ, ← Nat.succ_add]
            exact h k (by push_cast at hk ⊢; omega) (by omega)
        · intro h k hk hlt
          rw [Nat.add_right_comm]
          exact h (k + 1) (by push_cast at hk ⊢; omega) (by omega)
      · have hpos := waiting_next hw
        refine ⟨1, 0, ?_, by omega, iff_of_false (by decide) fun h => hc ?_⟩
        · simp [pipereadLoop, pipe.piperead, hn, hw, hc, State.setPc]
          exact ⟨rfl, rfl⟩
        · exact h 0 (by simpa using hn) (by omega)
    · refine ⟨0, 0, ?_, Nat.zero_le _, iff_of_true rfl fun k hk hlt => absurd ⟨by omega, ?_⟩ hmore⟩
      · simp only [pipereadLoop, pipe.piperead, if_neg hmore, State.setPc, put_self]
        exact ⟨by simp, by simp⟩
      · intro he
        unfold waiting at hlt
        rw [he] at hlt
        simp at hlt

end Pipe

/-! ## The console -/

section Console

open console

def ready (s : Cons) : Nat := (s.w - s.r).toNat

def typed (s : Cons) (k : Nat) : UInt8 :=
  s.buf ((s.r + BitVec.ofNat 32 k).toNat % INPUT_BUF_SIZE)

def plain (s : Cons) (k : Nat) : Nat := (List.range k).countP fun j => typed s j ≠ C 'D'

def Outcome.bytes : Outcome → List UInt8
  | .ret _ out => out
  | .sleep call => call.out

/-- Every character that a read comes to can be copied to the user, from byte `d` of the buffer on. -/
def Writable (s : Cons) (copyout : Nat → Bool) (n d : Nat) : Prop :=
  ∀ k < n, k < ready s → (∀ j ≤ k, typed s j ≠ C 'D') → (∀ j < k, typed s j ≠ newline) →
    copyout (d + k) = true

variable {s : Cons} {out : List UInt8} {n target : Nat} {copyout : Nat → Bool}

lemma typed_next (s : Cons) (k : Nat) : typed { s with r := s.r + 1 } k = typed s (k + 1) := by
  have hr : s.r + 1 + BitVec.ofNat 32 k = s.r + BitVec.ofNat 32 (k + 1) := by
    rw [BitVec.ofNat_add, BitVec.add_assoc, BitVec.add_comm (BitVec.ofNat 32 k)]
    rfl
  simp only [typed, hr]

lemma plain_succ (s : Cons) (k : Nat) :
    plain s (k + 1) = plain { s with r := s.r + 1 } k + if typed s 0 ≠ C 'D' then 1 else 0 := by
  unfold plain
  rw [range_succ_eq_map, countP_cons, countP_map]
  simp only [Function.comp_def, typed_next, decide_eq_true_eq]

lemma readLoop_counts : ∃ taken given,
    (readLoop target copyout n out s).1.r = s.r + BitVec.ofNat 32 taken ∧ taken ≤ ready s ∧
      (Outcome.bytes (readLoop target copyout n out s).2).length = out.length + given ∧
      (plain s taken = given ↔ Writable s copyout n out.length) := by
  induction n generalizing s out with
  | zero => exact ⟨0, 0, by simp [readLoop], by omega, rfl, iff_of_true rfl (by simp [Writable])⟩
  | succ n ih =>
    by_cases hw : s.r = s.w
    · have h0 : ready s = 0 := by simp [ready, hw]
      exact ⟨0, 0, by simp [readLoop, hw], by omega, by simp [readLoop, hw, Outcome.bytes],
        iff_of_true rfl (by simp [Writable, h0])⟩
    · have hready : ready { s with r := s.r + 1 } + 1 = ready s := by
        unfold ready
        bv_omega
      have htyped : s.buf (s.r.toNat % INPUT_BUF_SIZE) = typed s 0 := by simp [typed]
      by_cases heof : typed s 0 = C 'D'
      · have hall : Writable s copyout (n + 1) out.length :=
          fun k _ _ h => absurd heof (h 0 (Nat.zero_le k))
        by_cases hlt : n + 1 < target
        · exact ⟨0, 0, by simp [readLoop, hw, htyped, heof, hlt], by omega,
            by simp [readLoop, hw, htyped, heof, hlt, Outcome.bytes], iff_of_true rfl hall⟩
        · exact ⟨1, 0, by simp [readLoop, hw, htyped, heof, hlt], by omega,
            by simp [readLoop, hw, htyped, heof, hlt, Outcome.bytes],
            iff_of_true (by simp [heof, plain]) hall⟩
      · by_cases hc : copyout out.length = true
        · by_cases hnl : typed s 0 = newline
          · have hloop : readLoop target copyout (n + 1) out s =
                ({ s with r := s.r + 1 }, .ret ((target : Int) - n) (out ++ [newline])) := by
              rw [hnl] at heof htyped
              simp [readLoop, hw, htyped, heof, hc]
            rw [hloop]
            refine ⟨1, 1, rfl, by omega, length_append,
              iff_of_true (by simp [heof, plain]) ?_⟩
            · intro k _ _ _ h
              cases k with
              | zero => exact hc
              | succ k => exact absurd hnl (h 0 (Nat.succ_pos k))
          · have hloop : readLoop target copyout (n + 1) out s =
                readLoop target copyout n (out ++ [typed s 0]) { s with r := s.r + 1 } := by
              simp [readLoop, hw, htyped, heof, hc, hnl]
            obtain ⟨taken, given, hr, hle, hout, hiff⟩ :=
              @ih { s with r := s.r + 1 } (out ++ [typed s 0])
            rw [hloop]
            rw [length_append, length_singleton] at hout hiff
            refine ⟨taken + 1, given + 1, ?_, by omega, by omega, ?_⟩
            · rw [hr, BitVec.ofNat_add, BitVec.add_assoc, BitVec.add_comm (BitVec.ofNat 32 taken)]
              rfl
            · rw [plain_succ, if_pos heof, Nat.add_right_cancel_iff, hiff]
              simp only [Writable, typed_next]
              constructor
              · intro h k hk hlt h1 h2
                cases k with
                | zero => exact hc
                | succ k =>
                  rw [Nat.add_succ, ← Nat.succ_add]
                  exact h k (by omega) (by omega) (fun j hj => h1 _ (by omega))
                    fun j hj => h2 _ (by omega)
              · intro h k hk hlt h1 h2
                rw [Nat.add_right_comm]
                refine h (k + 1) (by omega) (by omega) (fun j hj => ?_) fun j hj => ?_
                · cases j with
                  | zero => exact heof
                  | succ j => exact h1 j (by omega)
                · cases j with
                  | zero => exact hnl
                  | succ j => exact h2 j (by omega)
        · refine ⟨1, 0, by simp [readLoop, hw, htyped, heof, hc], by omega,
            by simp [readLoop, hw, htyped, heof, hc, Outcome.bytes],
            iff_of_false (by simp [heof, plain]) fun h => hc ?_⟩
          exact h 0 (by omega) (by omega) (fun j hj => by rwa [Nat.le_zero.mp hj]) (by simp)

end Console

/-! ## Both reads -/

lemma moved_eq {x r : BitVec 32} {k : Nat} (h : x = r + BitVec.ofNat 32 k) (hk : k < 2 ^ 32) :
    (x - r).toNat = k := by
  rw [h, BitVec.add_comm, BitVec.add_sub_cancel, BitVec.toNat_ofNat, Nat.mod_eq_of_lt hk]

/-- A call of `piperead` takes as many bytes as it delivers exactly if every byte that it comes to
can be copied, and so does `consoleread` up to a sleep or its end, an end of file apart. -/
theorem reads_take_what_they_deliver_iff (s : pipe.State) (p : Nat) (n : Int) (c : console.Cons)
    (call : console.Call) (copyout : Nat → Bool) :
    (((piperead s p n copyout).pi.nread - s.pi.nread).toNat + s.delivered.length =
        (piperead s p n copyout).delivered.length ↔
      ∀ k : Nat, k < n → k < waiting s → copyout k = true) ∧
    (plain c ((console.consoleread c call).1.r - c.r).toNat + call.out.length =
        (Outcome.bytes (console.consoleread c call).2).length ↔
      Writable c call.copyout call.n call.out.length) := by
  constructor
  · obtain ⟨taken, given, hp, hle, hiff⟩ := @pipereadLoop_counts s p 0 (n.toNat + 1) n copyout
      (by push_cast; omega)
    simp only [Nat.cast_zero, zero_add] at hiff
    unfold piperead
    rw [← hiff, hp.delivered, moved_eq hp.nread (hle.trans_lt (BitVec.isLt _))]
    omega
  · obtain ⟨taken, given, hr, hle, hout, hiff⟩ :=
      @readLoop_counts c call.out call.n call.target call.copyout
    unfold console.consoleread
    rw [← hiff, hout, moved_eq hr (hle.trans_lt (BitVec.isLt _))]
    omega

def onePipe : pipe.State :=
  { pipe.pipealloc (fun _ => 7) with pi.nwrite := 1 }

def oneLine : console.Cons :=
  { buf := fun _ => 7, r := 0, w := 1, e := 1, uart := [] }

/-- A pipe and the console drop the byte whose copy to the reader fails. -/
theorem failed_reads_lose_a_byte :
    ((piperead onePipe 0 1 fun _ => false).pi.nread - onePipe.pi.nread).toNat = 1 ∧
      (piperead onePipe 0 1 fun _ => false).delivered = onePipe.delivered ∧
      plain oneLine ((console.consoleread oneLine ⟨1, 1, [], fun _ => false⟩).1.r - oneLine.r).toNat =
        1 ∧
      Outcome.bytes (console.consoleread oneLine ⟨1, 1, [], fun _ => false⟩).2 = [] := by
  decide

end xv6.lost
