-- Circular doubly linked lists through a head, as pointers make them: a node is
-- linked in behind the head and taken out, and a loop runs along the pointers
-- until it is at the head again.
import Mathlib.Data.List.Chain
import Mathlib.Data.List.Nodup
import Xv6.Lib.Cells

open cells List

namespace circular

structure Links (α : Type) where
  next : α → α
  prev : α → α

variable {α : Type} {L L' : Links α} {h b : α} {l : List α}

def Linked (L : Links α) (a b : α) : Prop := L.next a = b ∧ L.prev b = a

/-- From the head the nodes are those of `l`, in this order, and then the head again. -/
structure Cycle (L : Links α) (h : α) (l : List α) : Prop where
  nodup : (h :: l).Nodup
  chain : (h :: (l ++ [h])).IsChain (Linked L)

lemma chain_congr (hc : l.IsChain (Linked L)) (hnext : ∀ x ∈ l.dropLast, L'.next x = L.next x)
    (hprev : ∀ x ∈ l.tail, L'.prev x = L.prev x) : l.IsChain (Linked L') := by
  rw [isChain_iff_forall_rel_of_append_cons_cons] at hc ⊢
  intro a b u v hl
  obtain ⟨h1, h2⟩ := hc hl
  have ha : a ∈ l.dropLast := by rw [hl]; simp
  have hb : b ∈ l.tail := by
    rw [hl]
    cases u <;> simp
  exact ⟨(hnext a ha).trans h1, (hprev b hb).trans h2⟩

lemma Cycle.first (hc : Cycle L h l) : ∃ v, l ++ [h] = L.next h :: v ∧ L.next h ∉ v ∧
    L.prev (L.next h) = h ∧ (L.next h :: v).IsChain (Linked L) := by
  have hn : (l ++ [h]).Nodup := by
    rw [nodup_append_comm]
    exact hc.nodup
  have hchain := hc.chain
  rcases hl : l ++ [h] with _ | ⟨c, v⟩
  · simp at hl
  · rw [hl] at hn hchain
    rw [isChain_cons_cons] at hchain
    obtain ⟨⟨h1, h2⟩, hrest⟩ := hchain
    subst h1
    exact ⟨v, rfl, (nodup_cons.mp hn).1, h2, hrest⟩

lemma Cycle.nil (hnext : L.next h = h) (hprev : L.prev h = h) : Cycle L h [] := by
  refine ⟨nodup_singleton h, ?_⟩
  rw [nil_append, isChain_pair]
  exact ⟨hnext, hprev⟩

lemma Cycle.reverse (hc : Cycle L h l) : Cycle ⟨L.prev, L.next⟩ h l.reverse := by
  obtain ⟨hn, hchain⟩ := hc
  refine ⟨?_, ?_⟩
  · rw [nodup_cons, mem_reverse, nodup_reverse]
    exact nodup_cons.mp hn
  · have hrev : h :: (l.reverse ++ [h]) = (h :: (l ++ [h])).reverse := by simp
    rw [hrev, isChain_reverse]
    exact hchain.imp fun _ _ hab => ⟨hab.2, hab.1⟩

variable [DecidableEq α]

/-! ## Linking in and out -/

/-- `b->next = h->next; b->prev = h; h->next->prev = b; h->next = b` -/
def Links.push (L : Links α) (h b : α) : Links α :=
  let L := { L with next := put L.next b (L.next h) }
  let L := { L with prev := put L.prev b h }
  let L := { L with prev := put L.prev (L.next h) b }
  { L with next := put L.next h b }

/-- `b->next->prev = b->prev; b->prev->next = b->next` -/
def Links.unlink (L : Links α) (b : α) : Links α :=
  let L := { L with prev := put L.prev (L.next b) (L.prev b) }
  { L with next := put L.next (L.prev b) (L.next b) }

lemma Cycle.push (hc : Cycle L h l) (hb : b ∉ h :: l) : Cycle (L.push h b) h (b :: l) := by
  obtain ⟨v, hv, hfirst, hprev, hrest⟩ := hc.first
  obtain ⟨hbh, hbl⟩ : b ≠ h ∧ b ∉ l := by simpa using hb
  have hbv : b ∉ L.next h :: v := by
    rw [← hv]
    simp [hbh, hbl]
  have hbn : b ≠ L.next h := fun e => hbv (e ▸ mem_cons_self)
  have hnh : h ∉ l := (nodup_cons.mp hc.nodup).1
  refine ⟨?_, ?_⟩
  · rw [nodup_cons, mem_cons, not_or, nodup_cons]
    exact ⟨⟨Ne.symm hbh, hnh⟩, hbl, (nodup_cons.mp hc.nodup).2⟩
  · rw [cons_append, hv, isChain_cons_cons, isChain_cons_cons]
    have hnexth : put L.next b (L.next h) h = L.next h := put_of_ne (Ne.symm hbh) _ _
    refine ⟨⟨?_, ?_⟩, ⟨?_, ?_⟩, chain_congr hrest ?_ ?_⟩
    · simp [Links.push]
    · simp only [Links.push, hnexth]
      rw [put_of_ne hbn, put_self]
    · simp only [Links.push]
      rw [put_of_ne hbh, put_self]
    · simp only [Links.push, hnexth, put_self]
    · intro x hx
      rw [← hv, dropLast_concat] at hx
      have hxh : x ≠ h := fun e => hnh (e ▸ hx)
      have hxb : x ≠ b := fun e => hbl (e ▸ hx)
      simp only [Links.push]
      rw [put_of_ne hxh, put_of_ne hxb]
    · intro x hx
      rw [tail_cons] at hx
      have hxf : x ≠ L.next h := fun e => hfirst (e ▸ hx)
      have hxb : x ≠ b := fun e => hbv (e ▸ mem_cons_of_mem _ hx)
      simp only [Links.push, hnexth]
      rw [put_of_ne hxf, put_of_ne hxb]

lemma Cycle.push_all {u : List α} (hc : Cycle L h l) (hu : u.Nodup) (hd : ∀ b ∈ u, b ∉ h :: l) :
    Cycle (u.foldl (fun L b => L.push h b) L) h (u.reverse ++ l) := by
  induction u generalizing L l with
  | nil => exact hc
  | cons b u ih =>
    rw [nodup_cons] at hu
    have hb := hd b mem_cons_self
    rw [foldl_cons, reverse_cons, append_assoc]
    refine ih (hc.push hb) hu.2 fun x hx => ?_
    have hx' := hd x (mem_cons_of_mem b hx)
    have hxb : x ≠ b := fun e => hu.1 (e ▸ hx)
    simp_all

lemma Cycle.unlink (hc : Cycle L h l) (hb : b ∈ l) : Cycle (L.unlink b) h (l.erase b) := by
  obtain ⟨u, v, rfl⟩ := append_of_mem hb
  have hn := hc.nodup
  have hbu : b ∉ u := by
    intro hm
    simp only [nodup_cons, nodup_append] at hn
    exact hn.2.2.2 b hm b (by simp) rfl
  rw [erase_append_right _ hbu, erase_cons_head]
  -- the neighbours of `b`: the last node of `h :: u` and the first of `v ++ [h]`
  obtain ⟨u', a, hu⟩ : ∃ u' a, h :: u = u' ++ [a] :=
    ⟨_, _, (dropLast_append_getLast (cons_ne_nil h u)).symm⟩
  obtain ⟨c, v', hv⟩ : ∃ c v', v ++ [h] = c :: v' := by
    cases v <;> exact ⟨_, _, rfl⟩
  have hchain := hc.chain
  have hsplit : h :: (u ++ b :: v ++ [h]) = u' ++ a :: b :: c :: v' := by
    rw [append_assoc, cons_append, hv, ← cons_append, hu]
    simp
  rw [hsplit, isChain_append_cons_cons, isChain_cons_cons] at hchain
  obtain ⟨hleft, ⟨hab, hba⟩, ⟨hbc, hcb⟩, hright⟩ := hchain
  have hall : (u' ++ a :: b :: v).Nodup := by
    have h1 : h :: (u ++ b :: v) = u' ++ a :: b :: v := by
      rw [← cons_append, hu]
      simp
    rw [← h1]
    exact hn
  have hmem : ∀ x, x ∈ h :: u ↔ x ∈ u' ∨ x = a := by
    intro x
    rw [hu]
    simp
  have hcb' : c ≠ b := by
    rintro rfl
    have : c ∈ v ++ [h] := by
      rw [hv]
      exact mem_cons_self
    grind
  have hprevb : (L.unlink b).prev = put L.prev c a := by
    simp only [Links.unlink, hbc, hba]
  have hnextb : (L.unlink b).next = put L.next a c := by
    simp only [Links.unlink, hbc, hba]
    rw [put_of_ne (Ne.symm hcb'), hba]
  refine ⟨?_, ?_⟩
  · refine List.Nodup.sublist ?_ hn
    exact (List.Sublist.append_left (sublist_cons_self b v) u).cons_cons h
  · have hgoal : h :: (u ++ v ++ [h]) = u' ++ a :: c :: v' := by
      rw [append_assoc, hv, ← cons_append, hu]
      simp
    rw [hgoal, isChain_append_cons_cons]
    refine ⟨chain_congr hleft ?_ ?_, ⟨?_, ?_⟩, chain_congr hright ?_ ?_⟩
    · intro x hx
      rw [dropLast_concat] at hx
      rw [hnextb, put_of_ne]
      grind
    · intro x hx
      rw [← hu, tail_cons] at hx
      rw [hprevb, put_of_ne]
      rintro rfl
      have : x ∈ v ++ [h] := by
        rw [hv]
        exact mem_cons_self
      grind
    · rw [hnextb, put_self]
    · rw [hprevb, put_self]
    · intro x hx
      rw [← hv, dropLast_concat] at hx
      rw [hnextb, put_of_ne]
      grind
    · intro x hx
      rw [tail_cons] at hx
      rw [hprevb, put_of_ne]
      rintro rfl
      have : (v ++ [h]).Nodup := by grind
      rw [hv, nodup_cons] at this
      exact this.1 hx

/-! ## Loops along the pointers -/

/-- `for(b = ..; b != h; b = b->next) if(test(b)) return b;`, for at most `n` rounds: the node
found, if any, or nothing when the loop is not at its end. -/
def scan (next : α → α) (h : α) (test : α → Bool) : Nat → α → Option (Option α)
  | 0, _ => none
  | n + 1, b =>
    if b = h then some none
    else if test b then some (some b)
    else scan next h test n (next b)

lemma scan_chain {x : α} {n : Nat} (hchain : (x :: (l ++ [h])).IsChain (Linked L)) (hh : h ∉ l)
    (test : α → Bool) (hlen : l.length < n) :
    scan L.next h test n (L.next x) = some (l.find? test) := by
  induction l generalizing x n with
  | nil =>
    obtain ⟨m, rfl⟩ := Nat.exists_eq_succ_of_ne_zero (Nat.ne_of_gt hlen)
    rw [nil_append, isChain_pair] at hchain
    simp [scan, hchain.1]
  | cons y l ih =>
    obtain ⟨m, rfl⟩ := Nat.exists_eq_succ_of_ne_zero (Nat.ne_of_gt (Nat.zero_lt_of_lt hlen))
    rw [cons_append, isChain_cons_cons] at hchain
    rw [mem_cons, not_or] at hh
    rw [scan, hchain.1.1, if_neg (Ne.symm hh.1), find?_cons]
    cases test y with
    | true => simp
    | false => simpa using ih hchain.2 hh.2 (Nat.lt_of_succ_lt_succ hlen)

lemma Cycle.scan_next (hc : Cycle L h l) (test : α → Bool) {n : Nat} (hlen : l.length < n) :
    scan L.next h test n (L.next h) = some (l.find? test) :=
  scan_chain hc.chain (nodup_cons.mp hc.nodup).1 test hlen

lemma Cycle.scan_prev (hc : Cycle L h l) (test : α → Bool) {n : Nat} (hlen : l.length < n) :
    scan L.prev h test n (L.prev h) = some (l.reverse.find? test) :=
  hc.reverse.scan_next test (by rwa [length_reverse])

end circular
