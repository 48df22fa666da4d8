-- The arguments of a program that `exec` has started. The strings and the array
-- of pointers to them are in the one page of the stack, where `sp` and `a1`
-- say. The commit frees the old memory, and that is where they can be lost.
import Xv6.ForkLaws

open cells linked wp

namespace xv6.proc

open vm

variable {ld : Link} {s t : Sys} {p : Nat} {argc : Int} {path : List UInt8} {file : Option Prog}
  {argv : List (List UInt8)}

/-- In a state whose page tables and free list fit the process table, an `exec` that succeeds
returns the number of strings, and `a1` and `sp` point to the array of pointers to them. -/
theorem exec_lays_out_the_arguments (h : Sound ld s) (hp : (s.proc p).state = .RUNNING)
    (hrun : (exec ld p path file argv).run s = .ok (argc, t)) (hok : argc ≠ -1) :
    argc = argv.length ∧ ∃ addrs,
      Arguments t.vm.mem (t.proc p).pagetable (t.proc p).sz argv addrs
        (t.vm.mem (t.proc p).trapframe A1) ∧
      t.vm.mem (t.proc p).trapframe SP = t.vm.mem (t.proc p).trapframe A1 := by
  obtain ⟨use, l, tab, hI⟩ := h
  have hw := (wp_exec (E := fun _ => True) hI (.of_running hp)).of_ok hrun
  obtain ⟨_, _, ⟨hc, _⟩ | ⟨_, r, sz, T, ⟨name, _, _, hproc, _⟩, addrs, sp, hargs, hres, ha1, hsp⟩⟩ := hw
  · exact absurd hc hok
  have hme : t.proc p = (s.proc p).loaded name r sz := by rw [hproc, put_self]
  rw [hme]
  refine ⟨hres, addrs, ?_, hsp.trans ha1.symm⟩
  show Arguments t.vm.mem r sz argv addrs (t.vm.mem (s.proc p).trapframe A1)
  rw [ha1]
  exact hargs

def emptyProg : Prog where
  size := ELFHDR
  data i := [0x7f, 0x45, 0x4c, 0x46].getD i 0

theorem exec_lays_out_one_argument : ∃ s t addrs, Sound smallLink s ∧
    (exec smallLink 0 [] (some emptyProg) [[0x61]]).run s = .ok (1, t) ∧
    Arguments t.vm.mem (t.proc 0).pagetable (t.proc 0).sz [[0x61]] addrs
      (t.vm.mem (t.proc 0).trapframe A1) := by
  obtain ⟨s, hs, htest⟩ := exists_played (fun s p c _ => MemSafe smallLink s p c) [(0, .kill 7)]
    (fun s => decide ((s.proc 0).state = .RUNNING) &&
      ((exec smallLink 0 [] (some emptyProg) [[0x61]]).run s).toOption.any fun x : Int × Sys =>
        decide (x.1 = 1))
    (by simp [MemSafe]) (by decide +kernel)
  rw [Bool.and_eq_true] at htest
  obtain ⟨⟨argc, t⟩, hr, hx⟩ := (Option.any_eq_true _ _).mp htest.2
  obtain rfl : argc = 1 := of_decide_eq_true hx
  have hrun : (exec smallLink 0 [] (some emptyProg) [[0x61]]).run s = .ok (1, t) :=
    eq_ok_of_toOption hr
  obtain ⟨_, addrs, hargs, _⟩ := exec_lays_out_the_arguments hs.sound
    (of_decide_eq_true htest.1) hrun (by decide)
  exact ⟨s, t, addrs, hs.sound, hrun, hargs⟩

/-- A thread of the first process gives all memory back, the page of the process among it; then
the process gets that page as the stack of its new program, and frees it with its old memory. -/
theorem stack_is_freed_by_the_commit : ∃ s t, Run smallLink (fun _ _ _ _ => True) s ∧
    (s.proc 0).state = .RUNNING ∧ (exec smallLink 0 [] (some emptyProg) []).run s = .ok (0, t) ∧
    wordAt t.vm.mem (t.proc 0).pagetable (t.vm.mem (t.proc 0).trapframe A1) =
      0x0101010101010101 ∧
    ¬ ∃ addrs, Arguments t.vm.mem (t.proc 0).pagetable (t.proc 0).sz [] addrs
      (t.vm.mem (t.proc 0).trapframe A1) := by
  obtain ⟨s, hs, htest⟩ := exists_played (fun _ _ _ _ => True)
    [(0, .create 0 0), (1, .sbrk 20480), (1, .sbrk (-28672))]
    (fun s => decide ((s.proc 0).state = .RUNNING) &&
      ((exec smallLink 0 [] (some emptyProg) []).run s).toOption.any fun x : Int × Sys =>
        decide (x.1 = 0 ∧ wordAt x.2.vm.mem (x.2.proc 0).pagetable
          (x.2.vm.mem (x.2.proc 0).trapframe A1) = 0x0101010101010101))
    (by simp) (by decide +kernel)
  rw [Bool.and_eq_true] at htest
  obtain ⟨⟨argc, t⟩, hr, hx⟩ := (Option.any_eq_true _ _).mp htest.2
  obtain ⟨h0, hword⟩ := of_decide_eq_true hx
  obtain rfl : argc = 0 := h0
  have hrun : (exec smallLink 0 [] (some emptyProg) []).run s = .ok (0, t) :=
    eq_ok_of_toOption hr
  refine ⟨s, t, hs, of_decide_eq_true htest.1, hrun, hword, ?_⟩
  rintro ⟨addrs, hargs⟩
  obtain rfl : addrs = [] := List.eq_nil_of_length_eq_zero hargs.length
  have hnull := hargs.pointer 0 0 rfl
  dsimp only at hword
  rw [Nat.mul_zero, Nat.add_zero, hword] at hnull
  exact absurd hnull (by decide)

end xv6.proc
