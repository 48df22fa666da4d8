-- The laws of the disk driver: the descriptors are free or in one chain, a slot
-- of the avail ring waits for the device, and a request returns only after the
-- device completed its chain and the handler found its buffer there.
import Mathlib.Data.Finset.Card
import Mathlib.Data.List.Perm.Basic
import Xv6.Virtio

open cells machine List

namespace xv6.virtio

variable {s t : State} {p q h i : Nat} {r r' : Req} {pc : Pc}

/-! ## What a process has -/

/-- The request whose descriptors a process has. -/
def Pc.req : Pc → Option Req
  | .formatting r | .publishing r | .waiting r | .sleeping r _ => some r
  | _ => none

/-- The request whose descriptors a process has written. -/
def Pc.formatted : Pc → Option Req
  | .publishing r | .waiting r | .sleeping r _ => some r
  | _ => none

def Pc.submitted : Pc → Option Req
  | .waiting r | .sleeping r _ => some r
  | _ => none

/-- The buffer of the call. -/
def Pc.buf : Pc → Option Nat
  | .idle => none
  | .enter b _ | .allocating b _ | .noDesc b _ _ => some b
  | .formatting r | .publishing r | .waiting r | .sleeping r _ => some r.b

/-- A process there holds `disk.vdisk_lock`. -/
def Pc.holds : Pc → Bool
  | .allocating _ _ | .formatting _ | .publishing _ | .waiting _ => true
  | _ => false

def Req.chain (r : Req) : List Nat := [r.i0, r.i1, r.i2]

@[simp] lemma Req.mem_chain : i ∈ r.chain ↔ i = r.i0 ∨ i = r.i1 ∨ i = r.i2 := by
  simp [Req.chain]

lemma Req.chain_nodup : r.chain.Nodup ↔ (r.i0 ≠ r.i1 ∧ r.i0 ≠ r.i2) ∧ r.i1 ≠ r.i2 := by
  simp [Req.chain]

lemma put_chain (f : Nat → Bool) (x : Bool) (i : Nat) :
    put (put (put f r.i0 x) r.i1 x) r.i2 x i = if i ∈ r.chain then x else f i := by
  simp only [put_apply, Req.mem_chain]
  split_ifs <;> simp_all

lemma Pc.formatted_of_submitted (h : pc.submitted = some r) : pc.formatted = some r := by
  cases pc <;> simp_all [Pc.submitted, Pc.formatted]

lemma Pc.req_of_formatted (h : pc.formatted = some r) : pc.req = some r := by
  cases pc <;> simp_all [Pc.formatted, Pc.req]

lemma Pc.req_of_submitted (h : pc.submitted = some r) : pc.req = some r :=
  Pc.req_of_formatted (Pc.formatted_of_submitted h)

lemma Pc.buf_of_req (h : pc.req = some r) : pc.buf = some r.b := by
  cases pc <;> simp_all [Pc.req, Pc.buf]

lemma Pc.holds_of_req (h : pc.req = some r) (hs : pc.submitted = none) : pc.holds = true := by
  cases pc <;> simp_all [Pc.req, Pc.submitted, Pc.holds]

/-! ## The order of events at a descriptor -/

/-- How far the chain of a descriptor has come. -/
inductive Phase where
  | idle
  | submitted (p b : Nat)
  | completed (p b : Nat)
  | handled (p b : Nat)
  deriving DecidableEq

/-- A chain is submitted, completed, handled and returned in this order, and `info[].b` names the
buffer of the request when it is completed and when it is handled. -/
def Phase.next : Phase → Event → Option Phase
  | .idle, .submit p b => some (.submitted p b)
  | .submitted p b, .complete b' => if b' = some b then some (.completed p b) else none
  | .completed p b, .handled b' => if b' = some b then some (.handled p b) else none
  | .handled p b, .ret p' b' => if p' = p ∧ b' = b then some .idle else none
  | _, _ => none

/-- The phase after a list of events, if they come in order. -/
def follow (l : List Event) : Option Phase :=
  l.foldl (fun ph e => ph.bind fun x => x.next e) (some .idle)

lemma follow_snoc (l : List Event) (e : Event) :
    follow (l ++ [e]) = (follow l).bind fun x => x.next e := by
  simp [follow, foldl_append]

/-! ## The invariant -/

/-- The chain of the request as the device finds it. -/
structure Linked (desc : Nat → Desc) (r : Req) : Prop where
  flag0 : (desc r.i0).flags &&& VRING_DESC_F_NEXT ≠ 0
  next0 : (desc r.i0).next = r.i1
  flag1 : (desc r.i1).flags &&& VRING_DESC_F_NEXT ≠ 0
  next1 : (desc r.i1).next = r.i2
  flag2 : (desc r.i2).flags &&& VRING_DESC_F_NEXT = 0
  status : (desc r.i2).addr = .status r.i0

def State.done (s : State) : List Nat := ring.contents NUM s.used s.used_idx s.usedIdx

def State.inFlight (s : State) : List Nat := s.pending ++ s.busy ++ s.done

structure Inv (s : State) : Prop where
  lock : ∀ p, s.lock = some (.proc p) ↔ (s.proc p).holds = true
  buf : ∀ p b, (s.proc p).buf = some b → s.block b = some p
  range : ∀ i, s.free i = true → i < NUM
  chain : ∀ p r, (s.proc p).req = some r →
    r.chain.Nodup ∧ ∀ i ∈ r.chain, i < NUM ∧ s.free i = false
  apart : ∀ p q r r' i, (s.proc p).req = some r → (s.proc q).req = some r' → i ∈ r.chain →
    i ∈ r'.chain → p = q
  owned : ∀ i < NUM, s.free i = false → ∃ p r, (s.proc p).req = some r ∧ i ∈ r.chain
  linked : ∀ p r, (s.proc p).formatted = some r → Linked s.desc r ∧ (s.info r.i0).b = some r.b
  avail : ring.contents NUM s.avail s.seen s.availIdx = s.pending
  slot : ∀ p r, (s.proc p).formatted = some r → (s.proc p).submitted = none →
    s.avail (s.availIdx.toNat % NUM) = r.i0 ∧ s.disk r.b = true
  nodup : s.inFlight.Nodup
  mem : ∀ h, h ∈ s.inFlight ↔ ∃ p r, (s.proc p).submitted = some r ∧ r.i0 = h ∧ s.disk r.b = true
  status : ∀ h ∈ s.done, (s.info h).status = 0
  waits : ∀ p r, (s.proc p).submitted = some r →
    (r.i0 ∈ s.pending ++ s.busy → follow (s.trace r.i0) = some (.submitted p r.b)) ∧
    (r.i0 ∈ s.done → follow (s.trace r.i0) = some (.completed p r.b)) ∧
    (r.i0 ∉ s.inFlight → follow (s.trace r.i0) = some (.handled p r.b))
  rests : ∀ h, (∀ p r, (s.proc p).submitted = some r → r.i0 ≠ h) → follow (s.trace h) = some .idle

lemma NUM_dvd : NUM ∣ 2 ^ 16 := by decide

lemma Inv.buf_ne (hI : Inv s) {b b' : Nat} (hp : (s.proc p).buf = some b)
    (hq : (s.proc q).buf = some b') (hpq : p ≠ q) : b ≠ b' := by
  intro hb
  have h1 := hI.buf p b hp
  have h2 := hI.buf q b' hq
  rw [hb, h2, Option.some.injEq] at h1
  exact hpq h1.symm

lemma Inv.head_ne (hI : Inv s) (hp : (s.proc p).req = some r) (hq : (s.proc q).req = some r')
    (hpq : p ≠ q) : r.i0 ≠ r'.i0 := by
  intro he
  exact hpq (hI.apart p q r r' r.i0 hp hq (by simp) (by simp [he]))

lemma Inv.eq_of_lock (hI : Inv s) (hl : s.lock = some (.proc p)) (hq : (s.proc q).req = some r)
    (hs : (s.proc q).submitted = none) : q = p := by
  have := (hI.lock q).mpr (Pc.holds_of_req hq hs)
  rw [hl, Option.some.injEq, Holder.proc.injEq] at this
  exact this.symm

lemma Inv.inFlight_lt (hI : Inv s) (hh : h ∈ s.inFlight) : h < NUM := by
  obtain ⟨p, r, hs, rfl, _⟩ := (hI.mem h).mp hh
  exact ((hI.chain p r (Pc.req_of_formatted (Pc.formatted_of_submitted hs))).2 _ (by simp)).1

lemma length_le_of_lt {l : List Nat} (hn : l.Nodup) (hl : ∀ x ∈ l, x < NUM) : l.length ≤ NUM := by
  have hsub : l.toFinset ⊆ Finset.range NUM := by
    intro x hx
    simp only [mem_toFinset] at hx
    exact Finset.mem_range.mpr (hl x hx)
  have hcard := Finset.card_le_card hsub
  rwa [toFinset_card_of_nodup hn, Finset.card_range] at hcard

lemma Inv.length_inFlight (hI : Inv s) : s.inFlight.length ≤ NUM :=
  length_le_of_lt hI.nodup fun _ hx => hI.inFlight_lt hx

lemma Inv.room (hI : Inv s) (hp : (s.proc p).req = some r) (hs : (s.proc p).submitted = none) :
    r.i0 ∉ s.inFlight ∧ ring.span s.seen s.availIdx < NUM := by
  have hnot : r.i0 ∉ s.inFlight := by
    intro hc
    obtain ⟨q, r', hq, he, _⟩ := (hI.mem r.i0).mp hc
    have hreq := Pc.req_of_submitted hq
    have hpq := hI.apart p q r r' r.i0 hp hreq (by simp) (by simp [he])
    rw [← hpq, hs] at hq
    cases hq
  refine ⟨hnot, ?_⟩
  have hall : (r.i0 :: s.inFlight).length ≤ NUM := by
    apply length_le_of_lt
    · exact nodup_cons.mpr ⟨hnot, hI.nodup⟩
    · intro x hx
      rcases mem_cons.mp hx with rfl | hx
      · exact ((hI.chain p r hp).2 _ (by simp)).1
      · exact hI.inFlight_lt hx
  have hlen : s.pending.length = ring.span s.seen s.availIdx := by
    rw [← hI.avail, ring.length_contents]
  simp only [length_cons, State.inFlight, length_append] at hall
  omega

/-! ## Acts that leave the requests alone -/

/-- The part of a program counter that the descriptors and the rings depend on. -/
def Pc.views (pc : Pc) : Option Req × Option Req × Option Req := (pc.req, pc.formatted, pc.submitted)

section

variable (hI : Inv s)
include hI

lemma Inv.congr_proc {f : Nat → Pc} {lock : Option Holder}
    (hviews : ∀ p, (f p).views = (s.proc p).views)
    (hbuf : ∀ p b, (f p).buf = some b → s.block b = some p)
    (hlock : ∀ p, lock = some (.proc p) ↔ (f p).holds = true) :
    Inv { s with proc := f, lock := lock } := by
  have hreq : ∀ p, (f p).req = (s.proc p).req := fun p => congrArg Prod.fst (hviews p)
  have hfmt : ∀ p, (f p).formatted = (s.proc p).formatted :=
    fun p => congrArg (fun v => v.2.1) (hviews p)
  have hsub : ∀ p, (f p).submitted = (s.proc p).submitted :=
    fun p => congrArg (fun v => v.2.2) (hviews p)
  constructor
  case lock => exact hlock
  case buf => exact hbuf
  case range => exact hI.range
  case nodup => exact hI.nodup
  case avail => exact hI.avail
  case status => exact hI.status
  all_goals simp only [hreq, hfmt, hsub]
  case chain => exact hI.chain
  case apart => exact hI.apart
  case owned => exact hI.owned
  case linked => exact hI.linked
  case slot => exact hI.slot
  case mem => exact hI.mem
  case waits => exact hI.waits
  case rests => exact hI.rests

lemma Inv.setPc {o : Option Holder} (hviews : pc.views = (s.proc p).views)
    (hbuf : ∀ b, pc.buf = some b → s.block b = some p)
    (hlock : ∀ q, o = some (.proc q) ↔ (put s.proc p pc q).holds = true) :
    Inv { s.setPc p pc with lock := o } := by
  refine hI.congr_proc (f := put s.proc p pc) ?_ ?_ hlock
  · exact read_put (g := Pc.views) hviews
  · intro q b hb
    by_cases hq : q = p
    · rw [hq, put_self] at hb
      rw [hq]
      exact hbuf b hb
    · rw [put_of_ne hq] at hb
      exact hI.buf q b hb

lemma Inv.lock_taken (hl : s.lock = none) (hpc : pc.holds = true) (q : Nat) :
    some (Holder.proc p) = some (.proc q) ↔ (put s.proc p pc q).holds = true := by
  by_cases hq : q = p
  · simp [hq, hpc]
  · have := hI.lock q
    simp_all [Ne.symm hq]

lemma Inv.lock_given (hl : s.lock = some (.proc p)) (hpc : pc.holds = false) (q : Nat) :
    (none : Option Holder) = some (.proc q) ↔ (put s.proc p pc q).holds = true := by
  by_cases hq : q = p
  · simp [hq, hpc]
  · have := hI.lock q
    simp_all [Ne.symm hq]

lemma Inv.lock_kept (hpc : pc.holds = (s.proc p).holds) (q : Nat) :
    s.lock = some (.proc q) ↔ (put s.proc p pc q).holds = true := by
  by_cases hq : q = p
  · rw [hq, put_self, hpc]
    exact hI.lock p
  · rw [put_of_ne hq]
    exact hI.lock q

lemma Inv.buf_kept (hpc : pc.buf = (s.proc p).buf) (q b : Nat)
    (h : (put s.proc p pc q).buf = some b) : s.block b = some q := by
  rw [read_put (g := Pc.buf) hpc] at h
  exact hI.buf q b h

lemma Inv.acquire (hviews : pc.views = (s.proc p).views)
    (hbuf : pc.buf = (s.proc p).buf) (hpc : pc.holds = true) (he : acquire s p pc = .ok t) : Inv t := by
  unfold virtio.acquire at he
  split at he
  · rename_i hl
    cases he
    exact hI.setPc hviews (fun b hb => hI.buf p b (by rw [← hbuf]; exact hb)) (hI.lock_taken hl hpc)
  · cases he

lemma Inv.wakeDesc : Inv s.wakeDesc := by
  refine hI.congr_proc ?_ ?_ ?_
  · intro p
    cases s.proc p <;> rfl
  · intro p b hb
    apply hI.buf p b
    rw [← hb]
    cases s.proc p <;> rfl
  · intro p
    rw [hI.lock p]
    cases s.proc p <;> exact Iff.rfl

lemma Inv.wakeBuf (b : Nat) : Inv (s.wakeBuf b) := by
  refine hI.congr_proc ?_ ?_ ?_
  · intro p
    cases s.proc p <;> rfl
  · intro p b' hb
    apply hI.buf p b'
    rw [← hb]
    cases s.proc p <;> rfl
  · intro p
    rw [hI.lock p]
    cases s.proc p <;> exact Iff.rfl

end

/-! ## Descriptors -/

lemma alloc_desc_some (he : alloc_desc s = some (i, t)) :
    i < NUM ∧ s.free i = true ∧ t = { s with free := put s.free i false } := by
  unfold alloc_desc at he
  split at he
  · rename_i j hj
    simp only [Option.some.injEq, Prod.mk.injEq] at he
    obtain ⟨rfl, rfl⟩ := he
    exact ⟨mem_range.mp (mem_of_find?_eq_some hj), find?_some hj, rfl⟩
  · cases he

/-- What `free_desc` leaves. -/
def State.freed (s : State) (i : Nat) : State :=
  { s.wakeDesc with
    desc := put s.desc i { addr := .null, len := 0, flags := 0, next := 0 }
    free := put s.free i true }

lemma free_desc_ok (hi : i < NUM) (hf : s.free i = false) : free_desc s i = .ok (s.freed i) := by
  unfold free_desc
  rw [if_neg (by omega), if_neg (by simp [hf])]
  rfl

@[simp] lemma Pc.wakeDesc_wakeDesc (pc : Pc) : pc.wakeDesc.wakeDesc = pc.wakeDesc := by
  cases pc <;> rfl

/-- What `alloc3_desc` gives: three free descriptors, or nothing and no change but to descriptors
that are free. -/
inductive Alloc3 (s : State) : Option (Nat × Nat × Nat) → State → Prop where
  | got (i0 i1 i2 : Nat) (h0 : i0 < NUM) (h1 : i1 < NUM) (h2 : i2 < NUM)
      (free : s.free i0 = true ∧ s.free i1 = true ∧ s.free i2 = true)
      (ne : [i0, i1, i2].Nodup) :
      Alloc3 s (some (i0, i1, i2))
        { s with free := put (put (put s.free i0 false) i1 false) i2 false }
  | none : Alloc3 s none s
  | woken (desc : Nat → Desc) (hdesc : ∀ i, s.free i = false → desc i = s.desc i) :
      Alloc3 s none { s.wakeDesc with desc := desc }

lemma alloc3_desc_spec (s : State) : ∃ x t, alloc3_desc s = .ok (x, t) ∧ Alloc3 s x t := by
  have hne : ∀ {f : Nat → Bool} {i j : Nat}, put f i false j = true → j ≠ i ∧ f j = true := by
    intro f i j hj
    by_cases hji : j = i
    · simp [hji] at hj
    · exact ⟨hji, by simpa [hji] using hj⟩
  unfold alloc3_desc
  split
  · exact ⟨_, _, rfl, .none⟩
  · rename_i i0 s1 ha0
    obtain ⟨h0, hf0, rfl⟩ := alloc_desc_some ha0
    split
    · -- one descriptor only: it is given back
      rw [free_desc_ok h0 (by simp)]
      refine ⟨_, _, rfl, ?_⟩
      have hback : put (put s.free i0 false) i0 true = s.free := by
        rw [put_put, put_eq_self hf0]
      simp only [State.freed, State.wakeDesc, hback]
      refine Alloc3.woken _ fun i hi => put_of_ne ?_ ..
      rintro rfl
      simp [hf0] at hi
    · rename_i i1 s2 ha1
      obtain ⟨h1, hf1, rfl⟩ := alloc_desc_some ha1
      obtain ⟨hne1, hf1⟩ := hne hf1
      split
      · -- two descriptors only
        rw [free_desc_ok h0 (by simp [Ne.symm hne1])]
        simp only [Except.bind, Except.map]
        rw [free_desc_ok h1 (by simp [State.freed, hne1])]
        refine ⟨_, _, rfl, ?_⟩
        have hback : put (put (put (put s.free i0 false) i1 false) i0 true) i1 true = s.free := by
          rw [put_comm hne1, put_put, put_put, put_eq_self hf0, put_eq_self hf1]
        simp only [State.freed, State.wakeDesc, hback, Pc.wakeDesc_wakeDesc]
        refine Alloc3.woken _ fun i hi => ?_
        rw [put_of_ne, put_of_ne]
        · rintro rfl
          simp [hf0] at hi
        · rintro rfl
          simp [hf1] at hi
      · rename_i i2 s3 ha2
        obtain ⟨h2, hf2, rfl⟩ := alloc_desc_some ha2
        obtain ⟨hne2, hf2⟩ := hne hf2
        obtain ⟨hne3, hf2⟩ := hne hf2
        exact ⟨_, _, rfl, .got i0 i1 i2 h0 h1 h2 ⟨hf0, hf1, hf2⟩ (by
          simp [Ne.symm hne1, Ne.symm hne2, Ne.symm hne3])⟩

lemma free_chain_spec (hl : Linked s.desc r) (hn : r.chain.Nodup)
    (hc : ∀ i ∈ r.chain, i < NUM ∧ s.free i = false) :
    ∃ desc, free_chain (NUM + 1) s r.i0 = .ok { s.wakeDesc with
      desc := desc
      free := put (put (put s.free r.i0 true) r.i1 true) r.i2 true } ∧
      ∀ i, i ∉ r.chain → desc i = s.desc i := by
  obtain ⟨⟨h01, h02⟩, h12⟩ := Req.chain_nodup.mp hn
  have h0 := hc r.i0 (by simp)
  have h1 := hc r.i1 (by simp)
  have h2 := hc r.i2 (by simp)
  have hnext : ∀ {n i : Nat} {u : State}, i < NUM → u.free i = false →
      free_chain (n + 1) u i = if (u.desc i).flags &&& VRING_DESC_F_NEXT ≠ 0
        then free_chain n (u.freed i) (u.desc i).next else .ok (u.freed i) := by
    intro n i u hi hf
    rw [free_chain, free_desc_ok hi hf]
  have hflag1 : ((s.freed r.i0).desc r.i1) = s.desc r.i1 := put_of_ne (Ne.symm h01) ..
  have hflag2 : (((s.freed r.i0).freed r.i1).desc r.i2) = s.desc r.i2 := by
    simp [State.freed, Ne.symm h12, Ne.symm h02]
  rw [show NUM + 1 = 6 + 1 + 1 + 1 from rfl, hnext h0.1 h0.2, if_pos hl.flag0, hl.next0,
    hnext h1.1 (by simp [State.freed, Ne.symm h01, h1.2]), hflag1, if_pos hl.flag1, hl.next1,
    hnext h2.1 (by simp [State.freed, Ne.symm h02, Ne.symm h12, h2.2]), hflag2,
    if_neg (by simp [hl.flag2])]
  refine ⟨(((s.freed r.i0).freed r.i1).freed r.i2).desc, ?_, ?_⟩
  · simp [State.freed, State.wakeDesc]
  · intro i hi
    simp only [Req.mem_chain, not_or] at hi
    simp [State.freed, hi]

lemma writeStatus_eq (hl : Linked s.desc r) :
    s.writeStatus r.i0 = put s.info r.i0 { s.info r.i0 with status := 0 } := by
  have hlast : lastDesc s.desc NUM r.i0 = s.desc r.i2 := by
    simp only [NUM, lastDesc]
    rw [if_pos hl.flag0, hl.next0, if_pos hl.flag1, hl.next1, if_neg (by simp [hl.flag2])]
  unfold State.writeStatus
  rw [hlast, hl.status]

/-! ## The steps of a process -/

lemma Inv.got (hI : Inv s) {b : Nat} {write : Bool} {i0 i1 i2 : Nat}
    (hpc : s.proc p = .allocating b write) (h0 : i0 < NUM) (h1 : i1 < NUM) (h2 : i2 < NUM)
    (hfree : s.free i0 = true ∧ s.free i1 = true ∧ s.free i2 = true) (hne : [i0, i1, i2].Nodup) :
    Inv (({ s with free := put (put (put s.free i0 false) i1 false) i2 false } : State).setPc p
      (.formatting { b := b, write := write, i0 := i0, i1 := i1, i2 := i2 })) := by
  set r : Req := { b := b, write := write, i0 := i0, i1 := i1, i2 := i2 } with hr
  set free := put (put (put s.free i0 false) i1 false) i2 false with hf
  have hmine : ∀ i, i ∈ r.chain → s.free i = true ∧ i < NUM := by
    intro i hi
    rcases Req.mem_chain.mp hi with rfl | rfl | rfl
    · exact ⟨hfree.1, h0⟩
    · exact ⟨hfree.2.1, h1⟩
    · exact ⟨hfree.2.2, h2⟩
  have hnow : ∀ i, free i = (s.free i && decide (i ∉ r.chain)) := by
    intro i
    rw [hf, put_chain (r := r)]
    split <;> simp_all
  -- the requests of the others, whose chains were not free
  have hother : ∀ q r', q ≠ p → (s.proc q).req = some r' → ∀ i ∈ r'.chain, i ∉ r.chain := by
    intro q r' _ hq i hi hc
    have h1 := ((hI.chain q r' hq).2 i hi).2
    rw [(hmine i hc).1] at h1
    cases h1
  have hfmts : ∀ q, (put s.proc p (.formatting r) q).formatted = (s.proc q).formatted :=
    read_put (g := Pc.formatted) (by rw [hpc]; rfl)
  have hsubs : ∀ q, (put s.proc p (.formatting r) q).submitted = (s.proc q).submitted :=
    read_put (g := Pc.submitted) (by rw [hpc]; rfl)
  have hreq : ∀ q r', (put s.proc p (.formatting r) q).req = some r' →
      (q = p ∧ r' = r) ∨ (q ≠ p ∧ (s.proc q).req = some r') := by
    intro q r' hq
    by_cases hqp : q = p
    · simp only [hqp, put_self, Pc.req, Option.some.injEq] at hq
      exact .inl ⟨hqp, hq.symm⟩
    · rw [put_of_ne hqp] at hq
      exact .inr ⟨hqp, hq⟩
  constructor
  case lock => exact hI.lock_kept (by rw [hpc]; rfl)
  case buf => exact hI.buf_kept (by rw [hpc]; rfl)
  case range =>
    intro i hi
    apply hI.range i
    simp only [State.setPc, hnow, Bool.and_eq_true] at hi
    exact hi.1
  case chain =>
    intro q r' hq
    rcases hreq q r' hq with ⟨_, rfl⟩ | ⟨hqp, hq⟩
    · refine ⟨hne, fun i hi => ⟨(hmine i hi).2, ?_⟩⟩
      simp only [State.setPc, hnow]
      simp [hi]
    · refine ⟨(hI.chain q r' hq).1, fun i hi => ⟨((hI.chain q r' hq).2 i hi).1, ?_⟩⟩
      simp only [State.setPc, hnow, ((hI.chain q r' hq).2 i hi).2, Bool.false_and]
  case apart =>
    intro a c ra rc i ha hc hia hic
    rcases hreq a ra ha with ⟨hap, hra⟩ | ⟨hap, ha'⟩
    · rcases hreq c rc hc with ⟨hcp, _⟩ | ⟨hcp, hc'⟩
      · rw [hap, hcp]
      · exact absurd (hra ▸ hia) (hother c rc hcp hc' i hic)
    · rcases hreq c rc hc with ⟨hcp, hrc⟩ | ⟨_, hc'⟩
      · exact absurd (hrc ▸ hic) (hother a ra hap ha' i hia)
      · exact hI.apart a c ra rc i ha' hc' hia hic
  case owned =>
    intro i hi hif
    by_cases hm : i ∈ r.chain
    · exact ⟨p, r, by simp [State.setPc, Pc.req], hm⟩
    · simp only [State.setPc, hnow, hm, not_false_eq_true, decide_true, Bool.and_true] at hif
      obtain ⟨q, r', hq, hiq⟩ := hI.owned i hi hif
      have hqp : q ≠ p := by
        rintro rfl
        simp [hpc, Pc.req] at hq
      exact ⟨q, r', by simpa [State.setPc, hqp] using hq, hiq⟩
  case avail => exact hI.avail
  case nodup => exact hI.nodup
  case status => exact hI.status
  all_goals simp only [State.setPc, hfmts, hsubs]
  case linked => exact hI.linked
  case slot => exact hI.slot
  case mem => exact hI.mem
  case waits => exact hI.waits
  case rests => exact hI.rests

lemma linked_format (hn : r.chain.Nodup) : Linked (format s r).desc r := by
  obtain ⟨⟨h01, h02⟩, h12⟩ := Req.chain_nodup.mp hn
  have hflag : ((if r.write then 0 else VRING_DESC_F_WRITE) ||| VRING_DESC_F_NEXT) &&&
      VRING_DESC_F_NEXT ≠ 0 := by
    cases r.write <;> decide
  constructor <;> simp only [format]
  · rw [put_of_ne h02, put_of_ne h01, put_self]
    exact (by decide : VRING_DESC_F_NEXT &&& VRING_DESC_F_NEXT ≠ 0)
  · rw [put_of_ne h02, put_of_ne h01, put_self]
  · rw [put_of_ne h12, put_self]
    exact hflag
  · rw [put_of_ne h12, put_self]
  · rw [put_self]
    exact (by decide : VRING_DESC_F_WRITE &&& VRING_DESC_F_NEXT = 0)
  · rw [put_self]

lemma Linked.congr {desc desc' : Nat → Desc} (h : Linked desc r)
    (hd : ∀ i ∈ r.chain, desc' i = desc i) : Linked desc' r := by
  have h0 := hd r.i0 (by simp)
  have h1 := hd r.i1 (by simp)
  have h2 := hd r.i2 (by simp)
  constructor
  · rw [h0]; exact h.flag0
  · rw [h0]; exact h.next0
  · rw [h1]; exact h.flag1
  · rw [h1]; exact h.next1
  · rw [h2]; exact h.flag2
  · rw [h2]; exact h.status

lemma Inv.format (hI : Inv s) (hpc : s.proc p = .formatting r) :
    Inv ((format s r).setPc p (.publishing r)) := by
  have hreq : (s.proc p).req = some r := by rw [hpc]; rfl
  have hsub : (s.proc p).submitted = none := by rw [hpc]; rfl
  have hl : s.lock = some (.proc p) := (hI.lock p).mpr (by rw [hpc]; rfl)
  obtain ⟨hnot, hroom⟩ := hI.room hreq hsub
  have hreqs : ∀ q, (put s.proc p (.publishing r) q).req = (s.proc q).req :=
    read_put (g := Pc.req) (by rw [hreq]; rfl)
  have hsubs : ∀ q, (put s.proc p (.publishing r) q).submitted = (s.proc q).submitted :=
    read_put (g := Pc.submitted) (by rw [hsub]; rfl)
  -- who has submitted is another process, with another buffer
  have hb : ∀ q r', (s.proc q).submitted = some r' → put s.disk r.b true r'.b = s.disk r'.b := by
    intro q r' hq
    have hqp : q ≠ p := by
      rintro rfl
      rw [hsub] at hq
      cases hq
    exact put_of_ne (hI.buf_ne (Pc.buf_of_req (Pc.req_of_submitted hq))
      (Pc.buf_of_req hreq) hqp) ..
  constructor
  case lock => exact hI.lock_kept (by rw [hpc]; rfl)
  case buf => exact hI.buf_kept (by rw [hpc]; rfl)
  case range => exact hI.range
  case nodup => exact hI.nodup
  case avail =>
    exact (ring.contents_put NUM_dvd hroom).trans hI.avail
  case linked =>
    intro q r' hq
    by_cases hqp : q = p
    · simp only [State.setPc, hqp, put_self, Pc.formatted, Option.some.injEq] at hq
      subst hq
      exact ⟨linked_format (hI.chain p r hreq).1, by simp [State.setPc, virtio.format]⟩
    · simp only [State.setPc, virtio.format, put_of_ne hqp] at hq
      have hq' := Pc.req_of_formatted hq
      obtain ⟨h1, h2⟩ := hI.linked q r' hq
      refine ⟨h1.congr fun i hi => ?_, ?_⟩
      · have hni : i ∉ r.chain := fun hc => hqp (hI.apart q p r' r i hq' hreq hi hc)
        simp only [Req.mem_chain, not_or] at hni
        simp only [State.setPc, virtio.format, put_of_ne hni.1, put_of_ne hni.2.1, put_of_ne hni.2.2]
      · simp only [State.setPc, virtio.format, put_of_ne (hI.head_ne hq' hreq hqp)]
        exact h2
  case slot =>
    intro q r' hq hs
    by_cases hqp : q = p
    · simp only [State.setPc, hqp, put_self, Pc.formatted, Option.some.injEq] at hq
      subst hq
      simp [State.setPc, virtio.format]
    · simp only [State.setPc, virtio.format, put_of_ne hqp] at hq hs
      exact absurd (hI.eq_of_lock hl (Pc.req_of_formatted hq) hs) hqp
  case status =>
    intro h hh
    have hne : h ≠ r.i0 := by
      rintro rfl
      exact hnot (mem_append_right _ hh)
    simp only [State.setPc, virtio.format, put_of_ne hne]
    exact hI.status h hh
  case mem =>
    intro h
    refine (hI.mem h).trans ?_
    simp only [State.setPc, virtio.format, hsubs]
    constructor
    · rintro ⟨q, r', hq, he, hd⟩
      exact ⟨q, r', hq, he, by rw [hb q r' hq]; exact hd⟩
    · rintro ⟨q, r', hq, he, hd⟩
      exact ⟨q, r', hq, he, by rw [← hb q r' hq]; exact hd⟩
  all_goals simp only [State.setPc, virtio.format, hreqs, hsubs]
  case chain => exact hI.chain
  case apart => exact hI.apart
  case owned => exact hI.owned
  case waits => exact hI.waits
  case rests => exact hI.rests

lemma Inv.publish (hI : Inv s) (hpc : s.proc p = .publishing r) :
    Inv ((publish s p r).setPc p (.waiting r)) := by
  have hreq : (s.proc p).req = some r := by rw [hpc]; rfl
  have hfmt : (s.proc p).formatted = some r := by rw [hpc]; rfl
  have hsub : (s.proc p).submitted = none := by rw [hpc]; rfl
  have hl : s.lock = some (.proc p) := (hI.lock p).mpr (by rw [hpc]; rfl)
  obtain ⟨hnot, hroom⟩ := hI.room hreq hsub
  obtain ⟨hslot, hdisk⟩ := hI.slot p r hfmt hsub
  have hreqs : ∀ q, (put s.proc p (.waiting r) q).req = (s.proc q).req :=
    read_put (g := Pc.req) (by rw [hreq]; rfl)
  have hfmts : ∀ q, (put s.proc p (.waiting r) q).formatted = (s.proc q).formatted :=
    read_put (g := Pc.formatted) (by rw [hfmt]; rfl)
  have hsubs : ∀ q r', (put s.proc p (.waiting r) q).submitted = some r' ↔
      (q = p ∧ r' = r) ∨ (s.proc q).submitted = some r' := by
    intro q r'
    by_cases hq : q = p
    · rw [hq, put_self, hsub]
      simp [Pc.submitted, eq_comm]
    · simp [hq]
  have hheads : ∀ q r', (s.proc q).submitted = some r' → r'.i0 ≠ r.i0 := by
    intro q r' hq
    have hqp : q ≠ p := by
      rintro rfl
      rw [hsub] at hq
      cases hq
    exact hI.head_ne (Pc.req_of_submitted hq) hreq hqp
  have hperm : ∀ h, h ∈ s.pending ++ [r.i0] ++ s.busy ++ s.done ↔ h = r.i0 ∨ h ∈ s.inFlight := by
    intro h
    simp only [State.inFlight, mem_append, mem_singleton]
    tauto
  constructor
  case lock => exact hI.lock_kept (by rw [hpc]; rfl)
  case buf => exact hI.buf_kept (by rw [hpc]; rfl)
  case range => exact hI.range
  case status => exact hI.status
  case avail =>
    have hpush := ring.contents_push (d := s.avail) (a := r.i0) NUM_dvd hroom
      (by unfold NUM at hroom; omega)
    rw [put_eq_self hslot, hI.avail] at hpush
    exact hpush
  case slot =>
    intro q r' hq hs
    simp only [State.setPc, virtio.publish, hfmts] at hq hs
    have hqp : q ≠ p := by
      rintro rfl
      simp [Pc.submitted] at hs
    rw [put_of_ne hqp] at hs
    exact absurd (hI.eq_of_lock hl (Pc.req_of_formatted hq) hs) hqp
  case nodup =>
    have hn := hI.nodup
    have hp : (s.pending ++ [r.i0] ++ s.busy ++ s.done).Perm (r.i0 :: s.inFlight) := by
      simp only [State.inFlight, append_assoc, singleton_append]
      exact perm_middle
    exact (hp.nodup_iff).mpr (nodup_cons.mpr ⟨hnot, hn⟩)
  case mem =>
    intro h
    refine (hperm h).trans ?_
    simp only [State.setPc, virtio.publish, hsubs]
    constructor
    · rintro (rfl | hh)
      · exact ⟨p, r, .inl ⟨rfl, rfl⟩, rfl, hdisk⟩
      · obtain ⟨q, r', hq, he, hd⟩ := (hI.mem h).mp hh
        exact ⟨q, r', .inr hq, he, hd⟩
    · rintro ⟨q, r', (⟨_, rfl⟩ | hq), he, hd⟩
      · exact .inl he.symm
      · exact .inr ((hI.mem h).mpr ⟨q, r', hq, he, hd⟩)
  case waits =>
    intro q r' hq
    rcases (hsubs q r').mp hq with ⟨rfl, rfl⟩ | hq'
    · have hidle := hI.rests r'.i0 fun q r'' hq' => hheads q r'' hq'
      have hnow : follow (((virtio.publish s q r').setPc q (.waiting r')).trace r'.i0) =
          some (.submitted q r'.b) := by
        simp only [State.setPc, virtio.publish, put_self, follow_snoc, hidle]
        rfl
      refine ⟨fun _ => hnow, fun hd => ?_, fun hc => ?_⟩
      · exact absurd (mem_append_right _ hd) hnot
      · exact absurd ((hperm r'.i0).mpr (.inl rfl)) hc
    · have hne := hheads q r' hq'
      obtain ⟨h1, h2, h3⟩ := hI.waits q r' hq'
      simp only [State.setPc, virtio.publish, put_of_ne hne]
      refine ⟨fun hm => h1 ?_, h2, fun hm => h3 fun hc => hm ((hperm r'.i0).mpr (.inr hc))⟩
      simp only [mem_append, mem_singleton] at hm ⊢
      tauto
  case rests =>
    intro h hh
    have hne : h ≠ r.i0 := fun hc => hh p r ((hsubs p r).mpr (.inl ⟨rfl, rfl⟩)) hc.symm
    simp only [State.setPc, virtio.publish, put_of_ne hne]
    exact hI.rests h fun q r' hq => hh q r' ((hsubs q r').mpr (.inr hq))
  all_goals simp only [State.setPc, virtio.publish, hreqs, hfmts]
  case chain => exact hI.chain
  case apart => exact hI.apart
  case owned => exact hI.owned
  case linked => exact hI.linked

lemma Inv.over (hI : Inv s) (hp : (s.proc p).submitted = some r) (hd : s.disk r.b = false) :
    r.i0 ∉ s.inFlight := by
  intro hc
  obtain ⟨q, r', hq, he, hd'⟩ := (hI.mem r.i0).mp hc
  have hreq := Pc.req_of_submitted hp
  have hreq' := Pc.req_of_submitted hq
  have hpq := hI.apart p q r r' r.i0 hreq hreq' (by simp) (by simp [he])
  rw [← hpq, hp, Option.some.injEq] at hq
  rw [← hq, hd] at hd'
  cases hd'

lemma Inv.returned (hI : Inv s) (hpc : s.proc p = .waiting r) (hd : s.disk r.b = false)
    {desc : Nat → Desc} (hdesc : ∀ i, i ∉ r.chain → desc i = s.desc i) :
    Inv { s with
      proc := put s.proc p .idle
      lock := none
      desc := desc
      free := put (put (put s.free r.i0 true) r.i1 true) r.i2 true
      info := put s.info r.i0 { s.info r.i0 with b := none }
      trace := put s.trace r.i0 (s.trace r.i0 ++ [.ret p r.b]) } := by
  have hsub : (s.proc p).submitted = some r := by rw [hpc]; rfl
  have hreq : (s.proc p).req = some r := by rw [hpc]; rfl
  have hl : s.lock = some (.proc p) := (hI.lock p).mpr (by rw [hpc]; rfl)
  have hnot := hI.over hsub hd
  have hnow : ∀ i, put (put (put s.free r.i0 true) r.i1 true) r.i2 true i =
      (s.free i || decide (i ∈ r.chain)) := by
    intro i
    rw [put_chain]
    split <;> simp_all
  -- a process that still has something is another one
  have hkept : ∀ {β : Type} (view : Pc → Option β) q x, view .idle = none →
      view (put s.proc p .idle q) = some x → q ≠ p ∧ view (s.proc q) = some x := by
    intro β view q x hidle hq
    by_cases hqp : q = p
    · rw [hqp, put_self, hidle] at hq
      cases hq
    · rw [put_of_ne hqp] at hq
      exact ⟨hqp, hq⟩
  have hheads : ∀ q r', q ≠ p → (s.proc q).submitted = some r' → r'.i0 ≠ r.i0 := fun q r' hqp hq =>
    hI.head_ne (Pc.req_of_submitted hq) hreq hqp
  constructor
  case lock => exact hI.lock_given hl rfl
  case buf =>
    intro q b hq
    exact hI.buf q b (hkept Pc.buf q b rfl hq).2
  case range =>
    intro i hi
    simp only [hnow, Bool.or_eq_true, decide_eq_true_eq] at hi
    rcases hi with hi | hi
    · exact hI.range i hi
    · exact ((hI.chain p r hreq).2 i hi).1
  case chain =>
    intro q r' hq
    obtain ⟨hqp, hq'⟩ := hkept Pc.req q r' rfl hq
    obtain ⟨h1, h2⟩ := hI.chain q r' hq'
    refine ⟨h1, fun i hi => ⟨(h2 i hi).1, ?_⟩⟩
    have hni : i ∉ r.chain := fun hc => hqp (hI.apart q p r' r i hq' hreq hi hc)
    simp only [hnow, (h2 i hi).2, hni, decide_false, Bool.or_false]
  case apart =>
    intro a c ra rc i ha hc
    exact hI.apart a c ra rc i (hkept Pc.req a ra rfl ha).2 (hkept Pc.req c rc rfl hc).2
  case owned =>
    intro i hi hf
    simp only [hnow, Bool.or_eq_false_iff, decide_eq_false_iff_not] at hf
    obtain ⟨q, r', hq, hiq⟩ := hI.owned i hi hf.1
    have hqp : q ≠ p := by
      rintro rfl
      rw [hreq, Option.some.injEq] at hq
      exact hf.2 (hq ▸ hiq)
    exact ⟨q, r', by simpa [hqp] using hq, hiq⟩
  case linked =>
    intro q r' hq
    obtain ⟨hqp, hq'⟩ := hkept Pc.formatted q r' rfl hq
    obtain ⟨h1, h2⟩ := hI.linked q r' hq'
    have hreq' := Pc.req_of_formatted hq'
    refine ⟨h1.congr fun i hi => hdesc i fun hc => hqp (hI.apart q p r' r i hreq' hreq hi hc), ?_⟩
    simp only [put_of_ne (hI.head_ne hreq' hreq hqp)]
    exact h2
  case avail => exact hI.avail
  case nodup => exact hI.nodup
  case slot =>
    intro q r' hq hs
    obtain ⟨hqp, hq'⟩ := hkept Pc.formatted q r' rfl hq
    simp only [put_of_ne hqp] at hs
    exact absurd (hI.eq_of_lock hl (Pc.req_of_formatted hq') hs) hqp
  case mem =>
    intro h
    refine (hI.mem h).trans ?_
    constructor
    · rintro ⟨q, r', hq, he, hd'⟩
      have hqp : q ≠ p := by
        rintro rfl
        rw [hsub, Option.some.injEq] at hq
        rw [← hq, hd] at hd'
        cases hd'
      exact ⟨q, r', by simpa [hqp] using hq, he, hd'⟩
    · rintro ⟨q, r', hq, he, hd'⟩
      exact ⟨q, r', (hkept Pc.submitted q r' rfl hq).2, he, hd'⟩
  case status =>
    intro h hh
    have hne : h ≠ r.i0 := by
      rintro rfl
      exact hnot (mem_append_right _ hh)
    simp only [put_of_ne hne]
    exact hI.status h hh
  case waits =>
    intro q r' hq
    obtain ⟨hqp, hq'⟩ := hkept Pc.submitted q r' rfl hq
    simp only [put_of_ne (hheads q r' hqp hq')]
    exact hI.waits q r' hq'
  case rests =>
    intro h hh
    by_cases hne : h = r.i0
    · rw [hne]
      simp only [put_self, follow_snoc, (hI.waits p r hsub).2.2 hnot]
      simp [Phase.next]
    · simp only [put_of_ne hne]
      apply hI.rests h
      intro q r' hq
      by_cases hqp : q = p
      · rw [hqp, hsub, Option.some.injEq] at hq
        rw [← hq]
        exact Ne.symm hne
      · exact hh q r' (by simpa [hqp] using hq)

lemma Inv.finish (hI : Inv s) (hpc : s.proc p = .waiting r) (hd : s.disk r.b = false) :
    ∃ t, finish s p r = .ok t ∧ Inv t := by
  have hreq : (s.proc p).req = some r := by rw [hpc]; rfl
  have hfmt : (s.proc p).formatted = some r := by rw [hpc]; rfl
  obtain ⟨hn, hc⟩ := hI.chain p r hreq
  obtain ⟨desc, he, hdesc⟩ := free_chain_spec
    (s := { s with info := put s.info r.i0 { s.info r.i0 with b := none } })
    (hI.linked p r hfmt).1 hn hc
  refine ⟨_, by unfold virtio.finish; rw [he], ?_⟩
  have hproc : put (fun q => (s.proc q).wakeDesc) p .idle =
      fun q => (put s.proc p .idle q).wakeDesc := by
    funext q
    by_cases hq : q = p
    · rw [hq, put_self, put_self]
      rfl
    · rw [put_of_ne hq, put_of_ne hq]
  have hw := (hI.returned hpc hd hdesc).wakeDesc
  simp only [State.wakeDesc, State.setPc, hproc] at hw ⊢
  exact hw

/-! ## The handler and the device -/

lemma Inv.owner (hI : Inv s) (hh : h ∈ s.inFlight) : ∃ p r, (s.proc p).submitted = some r ∧
    r.i0 = h ∧ s.disk r.b = true ∧ Linked s.desc r ∧ (s.info h).b = some r.b ∧
    ∀ q r', (s.proc q).submitted = some r' → r'.i0 = h → q = p ∧ r' = r := by
  obtain ⟨p, r, hp, he, hd⟩ := (hI.mem h).mp hh
  have hfmt := Pc.formatted_of_submitted hp
  obtain ⟨h1, h2⟩ := hI.linked p r hfmt
  refine ⟨p, r, hp, he, hd, h1, by rw [← he]; exact h2, ?_⟩
  intro q r' hq he'
  have hqp : q = p := by
    by_contra hne
    exact hI.head_ne (Pc.req_of_submitted hq) (Pc.req_of_formatted hfmt)
      hne (by rw [he, he'])
  refine ⟨hqp, ?_⟩
  rw [hqp, hp, Option.some.injEq] at hq
  exact hq.symm

lemma Inv.virtio_disk_intr (hI : Inv s) (hne : s.used_idx ≠ s.usedIdx) :
    ∃ t, virtio_disk_intr s = .ok t ∧ Inv t := by
  have hpop : s.done = s.used (s.used_idx.toNat % NUM) ::
      ring.contents NUM s.used (s.used_idx + 1) s.usedIdx := ring.contents_pop hne
  generalize hid : s.used (s.used_idx.toNat % NUM) = id at *
  generalize hrest : ring.contents NUM s.used (s.used_idx + 1) s.usedIdx = rest at *
  have hin : id ∈ s.done := by rw [hpop]; exact mem_cons_self
  obtain ⟨p, r, hp, hr, hd, hl, hb, huniq⟩ := hI.owner (h := id) (mem_append_right _ hin)
  -- the rest of the chains in flight
  have hperm : s.inFlight.Perm (id :: (s.pending ++ s.busy ++ rest)) := by
    rw [State.inFlight, hpop]
    exact perm_middle
  have hn := (hperm.nodup_iff).mp hI.nodup
  have hmem : ∀ h, h ∈ s.pending ++ s.busy ++ rest ↔ h ∈ s.inFlight ∧ h ≠ id := by
    intro h
    rw [hperm.mem_iff, mem_cons]
    constructor
    · intro hh
      refine ⟨.inr hh, ?_⟩
      rintro rfl
      exact (nodup_cons.mp hn).1 hh
    · rintro ⟨rfl | hh, hne⟩
      · exact absurd rfl hne
      · exact hh
  have hbuf : ∀ q r', (s.proc q).submitted = some r' → r'.i0 ≠ id → r'.b ≠ r.b := by
    intro q r' hq hne
    have hqp : q ≠ p := by
      rintro rfl
      rw [hp, Option.some.injEq] at hq
      exact hne (by rw [← hq, hr])
    exact hI.buf_ne (Pc.buf_of_req (Pc.req_of_submitted hq))
      (Pc.buf_of_req (Pc.req_of_submitted hp)) hqp
  have hu : Inv { s with
      disk := put s.disk r.b false
      used_idx := s.used_idx + 1
      trace := put s.trace id (s.trace id ++ [.handled (s.info id).b]) } := by
    refine { hI with slot := ?_, nodup := ?_, mem := ?_, status := ?_, waits := ?_, rests := ?_ }
    · intro q r' hq hs
      obtain ⟨h1, h2⟩ := hI.slot q r' hq hs
      have hqp : q ≠ p := by
        rintro rfl
        rw [hp] at hs
        cases hs
      have hne := hI.buf_ne (Pc.buf_of_req (Pc.req_of_formatted hq))
        (Pc.buf_of_req (Pc.req_of_submitted hp)) hqp
      exact ⟨h1, by simpa only [put_of_ne hne] using h2⟩
    · simp only [State.inFlight, State.done, hrest]
      exact (nodup_cons.mp hn).2
    · intro h
      simp only [State.inFlight, State.done, hrest, hmem]
      constructor
      · rintro ⟨hh, hne⟩
        obtain ⟨q, r', hq, he, hd'⟩ := (hI.mem h).mp hh
        refine ⟨q, r', hq, he, ?_⟩
        rw [put_of_ne (hbuf q r' hq (by rw [he]; exact hne))]
        exact hd'
      · rintro ⟨q, r', hq, he, hd'⟩
        by_cases hc : r'.b = r.b
        · rw [hc, put_self] at hd'
          cases hd'
        · rw [put_of_ne hc] at hd'
          refine ⟨(hI.mem h).mpr ⟨q, r', hq, he, hd'⟩, ?_⟩
          rintro rfl
          exact hc (by rw [(huniq q r' hq he).2])
    · intro h hh
      simp only [State.done, hrest] at hh
      exact hI.status h (by rw [hpop]; exact mem_cons_of_mem _ hh)
    · intro q r' hq
      simp only [State.inFlight, State.done, hrest, hmem]
      by_cases hc : r'.i0 = id
      · obtain ⟨rfl, rfl⟩ := huniq q r' hq hc
        have hwas := (hI.waits q r' hq).2.1 (by rw [hc]; exact hin)
        have hnot : id ∉ s.pending ++ s.busy ++ rest := (nodup_cons.mp hn).1
        rw [hc] at hwas ⊢
        refine ⟨fun hh => absurd (mem_append_left _ hh) hnot,
          fun hh => absurd (mem_append_right _ hh) hnot, fun _ => ?_⟩
        rw [put_self, follow_snoc, hwas, hb]
        simp [Phase.next]
      · obtain ⟨h1, h2, h3⟩ := hI.waits q r' hq
        rw [put_of_ne hc]
        refine ⟨h1, fun hh => h2 ?_, fun hh => h3 fun hin' => hh ⟨hin', hc⟩⟩
        rw [hpop]
        exact mem_cons_of_mem _ hh
    · intro h hh
      have hc : h ≠ id := by
        rintro rfl
        exact hh p r hp hr
      simp only [put_of_ne hc]
      exact hI.rests h hh
  refine ⟨_, ?_, hu.wakeBuf r.b⟩
  unfold virtio.virtio_disk_intr
  rw [hid, if_neg (by simp [hI.status id hin])]
  split
  · rename_i hnone
    rw [hb] at hnone
    cases hnone
  · rename_i b hsome
    rw [hb, Option.some.injEq] at hsome
    rw [← hsome]
    rfl

lemma Inv.take (hI : Inv s) (hne : s.seen ≠ s.availIdx) :
    Inv { s with
      busy := s.busy ++ [s.avail (s.seen.toNat % NUM)]
      seen := s.seen + 1
      pending := s.pending.tail } := by
  have hpop := ring.contents_pop (N := NUM) (d := s.avail) hne
  rw [hI.avail] at hpop
  generalize s.avail (s.seen.toNat % NUM) = h at *
  have hperm : (s.pending.tail ++ (s.busy ++ [h]) ++ s.done).Perm s.inFlight := by
    rw [State.inFlight, hpop, tail_cons]
    apply List.Perm.append_right
    rw [← append_assoc, cons_append]
    exact perm_append_singleton h _
  have hmem : ∀ x, x ∈ s.pending.tail ++ (s.busy ++ [h]) ↔ x ∈ s.pending ++ s.busy := by
    intro x
    rw [hpop]
    simp only [tail_cons, mem_append, mem_cons]
    tauto
  refine { hI with avail := ?_, nodup := ?_, mem := ?_, waits := ?_ }
  · rw [hpop]
    rfl
  · exact (hperm.nodup_iff).mpr hI.nodup
  · intro x
    exact hperm.mem_iff.trans (hI.mem x)
  · intro q r' hq
    obtain ⟨h1, h2, h3⟩ := hI.waits q r' hq
    exact ⟨fun hh => h1 ((hmem _).mp hh), h2, fun hh => h3 fun hc => hh (hperm.mem_iff.mpr hc)⟩

lemma Inv.complete (hI : Inv s) (hh : h ∈ s.busy) : Inv (complete s h) := by
  have hin : h ∈ s.inFlight := mem_append_left _ (mem_append_right _ hh)
  obtain ⟨p, r, hp, hr, hd, hl, hb, huniq⟩ := hI.owner hin
  have hinfo : s.writeStatus h = put s.info h { s.info h with status := 0 } := by
    rw [← hr]
    exact writeStatus_eq hl
  have hlen := hI.length_inFlight
  have hpos : 0 < s.busy.length := length_pos_of_mem hh
  have hroom : ring.span s.used_idx s.usedIdx < NUM := by
    have hdone : s.done.length = ring.span s.used_idx s.usedIdx := ring.length_contents
    simp only [State.inFlight, length_append] at hlen
    omega
  have hwide : ring.span s.used_idx s.usedIdx + 1 < 2 ^ 16 := by
    unfold NUM at hroom
    omega
  have hdone : (virtio.complete s h).done = s.done ++ [h] :=
    ring.contents_push NUM_dvd hroom hwide
  have hperm : (virtio.complete s h).inFlight.Perm s.inFlight := by
    have hbusy : (s.busy.erase h ++ (s.done ++ [h])).Perm (s.busy ++ s.done) := by
      refine List.Perm.trans ?_ ((perm_cons_erase hh).symm.append_right s.done)
      rw [← append_assoc]
      exact perm_append_singleton h _
    simp only [State.inFlight, hdone, append_assoc]
    exact hbusy.append_left s.pending
  have hn : (s.pending ++ s.busy).Nodup := (nodup_append.mp hI.nodup).1
  have hnot : h ∉ s.pending ++ s.busy.erase h := by
    rw [nodup_append] at hn
    rw [mem_append, hn.2.1.mem_erase_iff]
    rintro (hc | hc)
    · exact hn.2.2 h hc h hh rfl
    · exact hc.1 rfl
  refine { hI with linked := ?_, nodup := ?_, mem := ?_, status := ?_, waits := ?_, rests := ?_ }
  · intro q r' hq
    obtain ⟨h1, h2⟩ := hI.linked q r' hq
    refine ⟨h1, ?_⟩
    have hkeep : ∀ k, (put s.info h { s.info h with status := 0 } k).b = (s.info k).b :=
      read_put (g := Info.b) rfl
    simp only [virtio.complete, hinfo]
    rw [hkeep]
    exact h2
  · exact (hperm.nodup_iff).mpr hI.nodup
  · intro x
    exact hperm.mem_iff.trans (hI.mem x)
  · intro x hx
    rw [hdone, mem_append, mem_singleton] at hx
    simp only [virtio.complete, hinfo, put_apply]
    split
    · rfl
    · rename_i hne
      exact hI.status x (hx.resolve_right hne)
  · intro q r' hq
    rw [hperm.mem_iff, hdone]
    obtain ⟨h1, h2, h3⟩ := hI.waits q r' hq
    simp only [virtio.complete]
    by_cases hc : r'.i0 = h
    · obtain ⟨rfl, rfl⟩ := huniq q r' hq hc
      have hwas := h1 (by rw [hc]; exact mem_append_right _ hh)
      rw [hc] at hwas ⊢
      refine ⟨fun hx => absurd hx hnot, fun _ => ?_, fun hx => absurd hin hx⟩
      rw [put_self, follow_snoc, hwas, hb]
      simp [Phase.next]
    · rw [put_of_ne hc]
      refine ⟨fun hx => h1 ?_, fun hx => h2 ?_, h3⟩
      · rw [mem_append] at hx ⊢
        exact hx.imp id mem_of_mem_erase
      · simpa [hc] using hx
  · intro x hx
    have hc : x ≠ h := by
      rintro rfl
      exact hx p r hp hr
    simp only [virtio.complete, put_of_ne hc]
    exact hI.rests x hx

/-! ## Runs -/

/-- An act that does not panic, and keeps the invariant if it is taken. -/
def Keeps (m : Except Stop State) : Prop :=
  (∀ text, m ≠ .error (.panic text)) ∧ ∀ t, m = .ok t → Inv t

lemma keeps_ok (hI : Inv t) : Keeps (.ok t) :=
  ⟨by simp, fun _ h => by cases h; exact hI⟩

lemma keeps_sleep : Keeps (.error .sleep) := ⟨by simp, by simp⟩

lemma keeps_ite {c : Prop} [Decidable c] (h : c → Inv t) :
    Keeps (if c then .ok t else .error .sleep) := by
  split
  · rename_i hc
    exact keeps_ok (h hc)
  · exact keeps_sleep

lemma Inv.step (hI : Inv s) : Keeps (step s p) := by
  have hacquire : ∀ pc, pc.views = (s.proc p).views → pc.buf = (s.proc p).buf → pc.holds = true →
      Keeps (virtio.acquire s p pc) := by
    intro pc h1 h2 h3
    refine ⟨fun text => ?_, fun t ht => hI.acquire h1 h2 h3 ht⟩
    unfold virtio.acquire
    split <;> simp
  unfold virtio.step
  split
  · exact keeps_sleep
  · rename_i b write hpc
    exact hacquire _ (by rw [hpc]; rfl) (by rw [hpc]; rfl) rfl
  · rename_i b write hpc
    have hl : s.lock = some (.proc p) := (hI.lock p).mpr (by rw [hpc]; rfl)
    have hbuf : ∀ b', (Pc.noDesc b write true).buf = some b' → s.block b' = some p := by
      intro b' hb
      exact hI.buf p b' (by rw [hpc]; exact hb)
    obtain ⟨x, t, ha, hspec⟩ := alloc3_desc_spec s
    rw [ha]
    cases hspec with
    | got i0 i1 i2 h0 h1 h2 hfree hne =>
      apply keeps_ok
      exact hI.got hpc h0 h1 h2 hfree hne
    | none =>
      apply keeps_ok
      exact hI.setPc (by rw [hpc]; rfl) hbuf (hI.lock_given hl rfl)
    | woken desc hdesc =>
      apply keeps_ok
      -- only descriptors that are free have changed
      have hw : Inv { s.wakeDesc with desc := desc } := by
        refine { hI.wakeDesc with linked := ?_ }
        intro q r hq
        obtain ⟨h1, h2⟩ := hI.wakeDesc.linked q r hq
        refine ⟨h1.congr fun i hi => hdesc i ?_, h2⟩
        exact ((hI.wakeDesc.chain q r (Pc.req_of_formatted hq)).2 i hi).2
      have hviews : (Pc.noDesc b write true).views = (s.wakeDesc.proc p).views := by
        simp only [State.wakeDesc, hpc]
        rfl
      exact hw.setPc hviews hbuf (hw.lock_given hl rfl)
  · exact keeps_sleep
  · rename_i b write hpc
    exact hacquire _ (by rw [hpc]; rfl) (by rw [hpc]; rfl) rfl
  · rename_i r hpc
    apply keeps_ok
    exact hI.format hpc
  · rename_i r hpc
    apply keeps_ok
    exact hI.publish hpc
  · rename_i r hpc
    have hl : s.lock = some (.proc p) := (hI.lock p).mpr (by rw [hpc]; rfl)
    split
    · apply keeps_ok
      refine hI.setPc (by rw [hpc]; rfl) ?_ (hI.lock_given hl rfl)
      intro b hb
      exact hI.buf p b (by rw [hpc]; exact hb)
    · rename_i hd
      obtain ⟨u, hu, hIu⟩ := hI.finish hpc (by simpa using hd)
      rw [hu]
      apply keeps_ok
      exact hIu
  · exact keeps_sleep
  · rename_i r hpc
    exact hacquire _ (by rw [hpc]; rfl) (by rw [hpc]; rfl) rfl

lemma Inv.exec (hI : Inv s) (a : Act) : Keeps (exec s a) := by
  cases a with
  | acquiresleep p b =>
    refine keeps_ite fun hfree => ?_
    refine { hI with buf := ?_ }
    intro q b' hq
    have hold := hI.buf q b' hq
    have hne : b' ≠ b := by
      rintro rfl
      rw [hfree.1] at hold
      cases hold
    simpa only [put_of_ne hne] using hold
  | releasesleep p b =>
    refine keeps_ite fun hmine => ?_
    refine { hI with buf := ?_ }
    intro q b' hq
    have hold := hI.buf q b' hq
    have hne : b' ≠ b := by
      rintro rfl
      rw [hmine.1, Option.some.injEq] at hold
      simp [← hold, hmine.2, Pc.buf] at hq
    simpa only [put_of_ne hne] using hold
  | virtio_disk_rw p b write =>
    refine keeps_ite fun hmine => ?_
    refine hI.setPc (o := s.lock) (by rw [hmine.2]; rfl) ?_ (hI.lock_kept (by rw [hmine.2]; rfl))
    intro b' hb
    simp only [Pc.buf, Option.some.injEq] at hb
    rw [← hb]
    exact hmine.1
  | step p => exact hI.step
  | kill p =>
    have hset : ∀ pc, pc.views = (s.proc p).views → pc.buf = (s.proc p).buf →
        pc.holds = (s.proc p).holds → Inv (s.setPc p pc) := by
      intro pc h1 h2 h3
      exact hI.setPc (o := s.lock) h1 (fun b hb => hI.buf p b (by rw [← h2]; exact hb))
        (hI.lock_kept h3)
    simp only [virtio.exec]
    split
    · rename_i hpc
      apply keeps_ok
      exact hset _ (by rw [hpc]; rfl) (by rw [hpc]; rfl) (by rw [hpc]; rfl)
    · rename_i hpc
      apply keeps_ok
      exact hset _ (by rw [hpc]; rfl) (by rw [hpc]; rfl) (by rw [hpc]; rfl)
    · apply keeps_ok
      exact hI
  | intrBegin =>
    refine keeps_ite fun hl => ?_
    refine { hI with lock := fun q => ?_ }
    rw [← hI.lock q, hl]
    simp
  | intrRound =>
    simp only [virtio.exec]
    split
    · rename_i hne
      obtain ⟨u, hu, hIu⟩ := hI.virtio_disk_intr hne.2
      rw [hu]
      apply keeps_ok
      exact hIu
    · exact keeps_sleep
  | intrEnd =>
    refine keeps_ite fun hl => ?_
    refine { hI with lock := fun q => ?_ }
    rw [← hI.lock q, hl.1]
    simp
  | take =>
    refine keeps_ite fun hne => ?_
    exact hI.take hne
  | complete h =>
    refine keeps_ite fun hh => ?_
    exact hI.complete hh

lemma inv_start (blockno : Nat → Nat) : Inv (start blockno) := by
  constructor <;>
    simp [start, Pc.holds, Pc.buf, Pc.req, Pc.formatted, Pc.submitted, State.inFlight, State.done,
      follow, Req.chain]

/-- In every state that processes, the handler and the device reach together: a descriptor is free
or in the chain of one request, and a chain has three descriptors; no act panics; the avail ring
holds the chains that the device has not taken, in order; and what happens to the chain of a
descriptor comes in order, with the buffer of the request in `info[].b`. -/
theorem virtio_protocol {blockno : Nat → Nat}
    (hr : Run exec (fun _ _ => True) (start blockno) s) :
    (∀ i < NUM, s.free i = true ↔ ∀ p r, (s.proc p).req = some r → i ∉ r.chain) ∧
    (∀ p r, (s.proc p).req = some r → r.chain.Nodup ∧ ∀ i ∈ r.chain, i < NUM) ∧
    (∀ p q r r' i, (s.proc p).req = some r → (s.proc q).req = some r' → i ∈ r.chain →
      i ∈ r'.chain → p = q) ∧
    (∀ a text, exec s a ≠ .error (.panic text)) ∧
    ring.contents NUM s.avail s.seen s.availIdx = s.pending ∧
    ∀ h, (follow (s.trace h)).isSome := by
  have hI : Inv s := hr.invariant (I := Inv) (inv_start blockno)
    fun s a t hs _ he => (hs.exec a).2 t he
  refine ⟨?_, fun p r hp => ?_, hI.apart, fun a => (hI.exec a).1, hI.avail, ?_⟩
  · intro i hi
    constructor
    · intro hf p r hp hc
      have := ((hI.chain p r hp).2 i hc).2
      rw [hf] at this
      cases this
    · intro hno
      by_contra hf
      obtain ⟨p, r, hp, hc⟩ := hI.owned i hi (by simpa using hf)
      exact hno p r hp hc
  · exact ⟨(hI.chain p r hp).1, fun i hi => ((hI.chain p r hp).2 i hi).1⟩
  · intro h
    by_cases hex : ∃ p r, (s.proc p).submitted = some r ∧ r.i0 = h
    · obtain ⟨p, r, hp, rfl⟩ := hex
      obtain ⟨h1, h2, h3⟩ := hI.waits p r hp
      by_cases hc : r.i0 ∈ s.inFlight
      · rcases List.mem_append.mp hc with hc | hc
        · simp [h1 hc]
        · simp [h2 hc]
      · simp [h3 hc]
    · rw [hI.rests h fun p r hp he => hex ⟨p, r, hp, he⟩]
      rfl

/-- One request from its start to its return, completed while its process sleeps. -/
def oneRequest : List Act :=
  [.acquiresleep 0 5, .virtio_disk_rw 0 5 true, .step 0, .step 0, .step 0, .step 0, .step 0, .take,
    .complete 0, .intrBegin, .intrRound, .intrEnd, .step 0, .step 0]

theorem virtio_protocol_oneRequest : ∃ s, Run exec (fun _ _ => True) (start fun _ => 0) s ∧
    s.trace 0 = [.submit 0 5, .complete (some 5), .handled (some 5), .ret 0 5] ∧
    (follow (s.trace 0)).isSome := by
  obtain ⟨s, hs, ht⟩ := exists_played exec (fun _ _ => True) (start fun _ => 0) oneRequest
    (fun _ _ => true)
    (fun s => s.trace 0 == [.submit 0 5, .complete (some 5), .handled (some 5), .ret 0 5])
    (fun _ _ _ => trivial) (by decide +kernel)
  exact ⟨s, hs, by simpa using ht, (virtio_protocol hs).2.2.2.2.2 0⟩

end xv6.virtio
