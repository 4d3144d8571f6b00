import Mathlib.Data.List.Forall2
import Cadence.Bus
import Cadence.Proofs.Ring.Fifo

/-!
# Buses as mailboxes

Seen from outside, a bus is a `Mailbox`: a bounded list of messages with a count of those that found no
room.  How operations are grouped into calls and transactions makes no difference, and neither does who
breaks down in a transaction (`alike_useAll`).  What was sent and not refused comes out in that order, is
cleared or is still there, and every refusal is counted and announced (`transparent`).
-/

namespace Cadence

structure Mailbox where
  box : Fifo Message
  dropped : Nat

namespace Mailbox

open Bus (Access Answer)

def empty (limit : Nat) : Mailbox := ⟨Fifo.empty limit, 0⟩

def access (m : Mailbox) : Access → Answer × Mailbox
  | .receive => (.received m.box.pull.1, { m with box := m.box.pull.2 })
  | .send msg =>
    if (m.box.push msg).1 then (.sent none, { m with box := (m.box.push msg).2 })
    else
      (.sent (some ⟨msg.label, m.box.limit, UInt64.ofNat (m.dropped + 1)⟩),
        { m with dropped := m.dropped + 1 })
  | .drain => (.drained m.box.values, { m with box := m.box.clear })
  | .drainMany n => (.drained (m.box.takeMany n).1, { m with box := (m.box.takeMany n).2 })
  | .clear => (.cleared, { m with box := m.box.clear })

def trace (m : Mailbox) : List Access → List (Answer × Mailbox)
  | [] => []
  | a :: rest => m.access a :: (m.access a).2.trace rest

def after (m : Mailbox) (accesses : List Access) : Mailbox :=
  accesses.foldl (fun m a => (m.access a).2) m

theorem trace_append (m : Mailbox) (xs ys : List Access) :
    m.trace (xs ++ ys) = m.trace xs ++ (m.after xs).trace ys := by
  induction xs generalizing m with
  | nil => rfl
  | cons a rest ih =>
    show m.access a :: (m.access a).2.trace (rest ++ ys) = _
    rw [ih]
    rfl

theorem after_append (m : Mailbox) (xs ys : List Access) :
    m.after (xs ++ ys) = (m.after xs).after ys := List.foldl_append

theorem limit_access (m : Mailbox) (a : Access) : (m.access a).2.box.limit = m.box.limit := by
  cases a with
  | send msg =>
    rw [access, Fifo.push]
    split <;> rfl
  | _ => rfl

end Mailbox

namespace Bus

/-! ## 1. One operation -/

/-- A bus shows what a mailbox holds. -/
structure Matches (b : Bus) (m : Mailbox) : Prop where
  box : b.ring.fifo = m.box
  dropped : b.dropped = UInt64.ofNat m.dropped

theorem matches_withSlots (n : Nat) : (withSlots n).Matches (Mailbox.empty (max n 2 - 1)) :=
  ⟨Ring.fifo_withSlots n, rfl⟩

variable {b : Bus} {m : Mailbox}

theorem Matches.values_eq (h : b.Matches m) : m.box.values = b.ring.toList :=
  congrArg Fifo.values h.box.symm

theorem Matches.limit_eq (h : b.Matches m) : m.box.limit = b.capacity :=
  congrArg Fifo.limit h.box.symm

theorem Matches.receive (h : b.Matches m) :
    (b.access .receive).1 = (m.access .receive).1 ∧
      (b.access .receive).2.Matches (m.access .receive).2 := by
  have hpulled := Ring.fifo_pull b.ring
  rw [h.box] at hpulled
  show Answer.received b.ring.pull.1 = .received m.box.pull.1 ∧ _
  rw [hpulled]
  exact ⟨rfl, (congrArg Prod.snd hpulled).symm, h.dropped⟩

/-- A bus and a mailbox that it matches do the same with a message, and match afterwards. -/
theorem Matches.send (h : b.Matches m) (msg : Message) :
    (b.access (.send msg)).1 = (m.access (.send msg)).1 ∧
      (b.access (.send msg)).2.Matches (m.access (.send msg)).2 := by
  have hpushed := Ring.fifo_push b.ring msg
  rw [h.box] at hpushed
  simp only [access, Bus.send, Mailbox.access, hpushed]
  cases hpush : b.ring.push msg with
  | mk accepted ring =>
    rw [hpush] at hpushed
    cases accepted with
    | true => exact ⟨rfl, rfl, h.dropped⟩
    | false =>
      -- The next total is the same in 64 bits.
      have htotal : b.dropped + 1 = UInt64.ofNat (m.dropped + 1) := by
        rw [h.dropped, UInt64.ofNat_add]
        rfl
      refine ⟨?_, h.box, htotal⟩
      show Answer.sent (some ⟨_, b.capacity, b.dropped + 1⟩) = .sent (some ⟨_, m.box.limit, _⟩)
      rw [htotal, h.limit_eq]

theorem Matches.drainMany (h : b.Matches m) (n : Nat) :
    (b.access (.drainMany n)).1 = (m.access (.drainMany n)).1 ∧
      (b.access (.drainMany n)).2.Matches (m.access (.drainMany n)).2 := by
  have htaken := Ring.fifo_drainMany b.ring n
  rw [h.box] at htaken
  show Answer.drained (b.ring.drainMany n).1 = .drained (m.box.takeMany n).1 ∧ _
  rw [htaken]
  exact ⟨rfl, (congrArg Prod.snd htaken).symm, h.dropped⟩

theorem Matches.drain (h : b.Matches m) :
    (b.access .drain).1 = (m.access .drain).1 ∧
      (b.access .drain).2.Matches (m.access .drain).2 := by
  obtain ⟨hall, hleft⟩ := Ring.fifo_drain b.ring
  rw [h.box] at hleft
  show Answer.drained (b.ring.drainMany b.ring.capacity).1 = .drained m.box.values ∧ _
  rw [hall, h.values_eq]
  exact ⟨rfl, hleft, h.dropped⟩

/-- A bus answers each operation as a mailbox does. -/
theorem Matches.access (h : b.Matches m) (a : Access) :
    (b.access a).1 = (m.access a).1 ∧ (b.access a).2.Matches (m.access a).2 := by
  cases a with
  | receive => exact h.receive
  | send msg => exact h.send msg
  | drain => exact h.drain
  | drainMany n => exact h.drainMany n
  | clear =>
    refine ⟨rfl, ?_, h.dropped⟩
    show b.ring.clear.fifo = m.box.clear
    rw [← Ring.fifo_clear, h.box]

/-- What a bus tells of itself is what its mailbox holds. -/
theorem Matches.length_eq (h : b.Matches m) : b.length = m.box.values.length := by
  rw [h.values_eq, Ring.length_toList]
  rfl

theorem Matches.isEmpty_eq (h : b.Matches m) : b.isEmpty = decide (m.box.values.length = 0) := by
  rw [h.values_eq]
  exact b.ring.isEmpty_eq

/-! ## 2. Calls and transactions -/

/-- Who takes the lock gets the bus, also if somebody has broken down with it. -/
theorem bus_lock (b : Bus) : b.lock.bus = b := by
  unfold lock
  split <;> rfl

theorem Matches.release (h : b.Matches m) (breaksDown : Bool) : (b.release breaksDown).Matches m :=
  ⟨h.box, h.dropped⟩

structure Alike (p : Answer × Bus) (q : Answer × Mailbox) : Prop where
  answer : p.1 = q.1
  contents : p.2.ring.toList = q.2.box.values
  length : p.2.length = q.2.box.values.length
  isEmpty : p.2.isEmpty = decide (q.2.box.values.length = 0)
  capacity : p.2.capacity = q.2.box.limit
  dropped : p.2.dropped = UInt64.ofNat q.2.dropped

theorem Matches.alike (h : b.Matches m) {x y : Answer} (hsame : x = y) : Alike (x, b) (y, m) :=
  ⟨hsame, h.values_eq.symm, h.length_eq, h.isEmpty_eq, h.limit_eq.symm, h.dropped⟩

theorem Matches.trace (h : b.Matches m) (accesses : List Access) :
    List.Forall₂ Alike (b.trace accesses) (m.trace accesses) ∧
      (b.after accesses).Matches (m.after accesses) := by
  induction accesses generalizing b m with
  | nil => exact ⟨.nil, h⟩
  | cons a rest ih =>
    obtain ⟨hanswers, hafterwards⟩ := h.access a
    obtain ⟨hlater, hlast⟩ := ih hafterwards
    exact ⟨.cons (hafterwards.alike hanswers) hlater, hlast⟩

inductive Use
  | call (a : Access)
  | transaction (t : Transaction)

/-- The operations of a use, up to the point where it breaks down if it does. -/
def Use.accesses : Use → List Access
  | .call a => [a]
  | .transaction t => t.accesses

def use (b : Bus) : Use → List (Answer × Bus) × Bus
  | .call a => ([b.call a], (b.call a).2)
  | .transaction t => b.commit t

def useAll (b : Bus) : List Use → List (Answer × Bus) × Bus
  | [] => ([], b)
  | u :: rest => ((b.use u).1 ++ ((b.use u).2.useAll rest).1, ((b.use u).2.useAll rest).2)

theorem Matches.use (h : b.Matches m) (u : Use) :
    List.Forall₂ Alike (b.use u).1 (m.trace u.accesses) ∧
      (b.use u).2.Matches (m.after u.accesses) := by
  cases u with
  | call a =>
    obtain ⟨hanswers, hafterwards⟩ := h.access a
    have hreleased := hafterwards.release false
    simp only [Bus.use, call, bus_lock]
    exact ⟨.cons (hreleased.alike hanswers) .nil, hreleased⟩
  | transaction t =>
    obtain ⟨hanswers, hafterwards⟩ := h.trace t.accesses
    simp only [Bus.use, commit, bus_lock]
    exact ⟨hanswers, hafterwards.release t.breaksDown⟩

/-- However operations are grouped, they are answered as one by one on a list. -/
theorem alike_useAll (h : b.Matches m) (uses : List Use) :
    List.Forall₂ Alike (b.useAll uses).1 (m.trace (uses.flatMap Use.accesses)) ∧
      (b.useAll uses).2.Matches (m.after (uses.flatMap Use.accesses)) := by
  induction uses generalizing b m with
  | nil => exact ⟨.nil, h⟩
  | cons u rest ih =>
    obtain ⟨hfirst, hafterwards⟩ := h.use u
    obtain ⟨hlater, hlast⟩ := ih hafterwards
    rw [List.flatMap_cons, Mailbox.trace_append, Mailbox.after_append]
    exact ⟨List.rel_append hfirst hlater, hlast⟩

/-! ## 3. What goes in and what comes out -/

inductive Fate
  | handedOut
  | cleared
  deriving DecidableEq

def Answer.messages : Answer → List Message
  | .received m => m.toList
  | .drained ms => ms
  | _ => []

def accepts (b : Bus) (a : Access) : List Message :=
  match a, (b.access a).1 with
  | .send msg, .sent none => [msg]
  | _, _ => []

def refuses (b : Bus) (a : Access) : List Message :=
  match a, (b.access a).1 with
  | .send msg, .sent (some _) => [msg]
  | _, _ => []

def departs (b : Bus) (a : Access) : List (Message × Fate) :=
  match a with
  | .clear => b.ring.toList.map fun msg => (msg, .cleared)
  | _ => (b.access a).1.messages.map fun msg => (msg, .handedOut)

def along {β : Type} (f : Bus → Access → List β) (b : Bus) : List Access → List β
  | [] => []
  | a :: rest => f b a ++ along f (b.access a).2 rest

def alongUses {β : Type} (f : Bus → Access → List β) (b : Bus) : List Use → List β
  | [] => []
  | u :: rest => along f b u.accesses ++ alongUses f (b.use u).2 rest

/-! ### Messages -/

/-- An operation that only takes hands out what it takes. -/
theorem toList_receive (b : Bus) :
    (b.access .receive).1.messages ++ (b.access .receive).2.ring.toList = b.ring.toList :=
  b.ring.pull_append

theorem toList_drainMany (b : Bus) (n : Nat) :
    (b.access (.drainMany n)).1.messages ++ (b.access (.drainMany n)).2.ring.toList =
      b.ring.toList := by
  have htaken := Ring.fifo_drainMany b.ring n
  rw [Fifo.takeMany, Prod.mk.injEq] at htaken
  show (b.ring.drainMany n).1 ++ (b.ring.drainMany n).2.fifo.values = _
  rw [← htaken.1, ← htaken.2]
  exact List.take_append_drop n b.ring.toList

theorem toList_send (b : Bus) (msg : Message) :
    (b.access (.send msg)).2.ring.toList = b.ring.toList ++ b.accepts (.send msg) := by
  have hpushed := b.ring.toList_push msg
  simp only [access, accepts, Bus.send]
  cases hpush : b.ring.push msg with
  | mk accepted ring =>
    rw [hpush] at hpushed
    cases accepted with
    | false => exact (List.append_nil _).symm
    | true => exact hpushed

/-- What comes with an answer has been handed out. -/
theorem fst_handedOut (ms : List Message) :
    (ms.map fun msg => (msg, Fate.handedOut)).map Prod.fst = ms := by
  rw [List.map_map]
  exact List.map_id ms

theorem filter_handedOut (ms : List Message) :
    (ms.map fun msg => (msg, Fate.handedOut)).filter (·.2 = .handedOut) =
      ms.map fun msg => (msg, Fate.handedOut) := by
  rw [List.filter_map]
  exact congrArg (List.map _) (List.filter_eq_self.2 fun _ _ => rfl)

theorem filter_cleared (ms : List Message) :
    (ms.map fun msg => (msg, Fate.cleared)).filter (·.2 = .handedOut) = [] := by
  rw [List.filter_map]
  exact congrArg (List.map _) (List.filter_eq_nil_iff.2 fun _ _ => Bool.false_ne_true)

/-- What was there and what is added is what leaves and what is there afterwards, in that order. -/
theorem toList_access (b : Bus) (a : Access) :
    b.ring.toList ++ b.accepts a = (b.departs a).map Prod.fst ++ (b.access a).2.ring.toList := by
  cases a with
  | send msg => exact (toList_send b msg).symm
  | receive =>
    have hout : (b.departs .receive).map Prod.fst = (b.access .receive).1.messages := fst_handedOut _
    rw [hout, toList_receive]
    exact List.append_nil _
  | drain =>
    have hout : (b.departs .drain).map Prod.fst = (b.access .drain).1.messages := fst_handedOut _
    rw [hout]
    exact (List.append_nil _).trans (toList_drainMany b b.ring.capacity).symm
  | drainMany n =>
    have hout : (b.departs (.drainMany n)).map Prod.fst = (b.access (.drainMany n)).1.messages :=
      fst_handedOut _
    rw [hout, toList_drainMany]
    exact List.append_nil _
  | clear =>
    have hleft : (b.access .clear).2.ring.toList = [] := Ring.toList_clear b.ring
    have hout : (b.departs .clear).map Prod.fst = b.ring.toList :=
      (List.map_map).trans (List.map_id _)
    rw [hleft, hout]
    rfl

/-! ### Warnings -/

def warning (capacity : Nat) (msg : Message) (j : Nat) : Overflow :=
  ⟨msg.label, capacity, UInt64.ofNat j⟩

theorem capacity_access (b : Bus) (a : Access) : (b.access a).2.capacity = b.capacity := by
  have hmatched : b.Matches ⟨b.ring.fifo, b.dropped.toNat⟩ := ⟨rfl, UInt64.ofNat_toNat.symm⟩
  rw [← (hmatched.access a).2.limit_eq, Mailbox.limit_access]
  rfl

/-- A message that finds no room is announced with the number of those dropped so far, and no other
is. -/
theorem warned_send (b : Bus) (msg : Message) {k : Nat} (hcount : b.dropped = UInt64.ofNat k) :
    [(b.access (.send msg)).1].filterMap Answer.overflow? =
        ((b.refuses (.send msg)).zipIdx (k + 1)).map (fun p => warning b.capacity p.1 p.2) ∧
      (b.access (.send msg)).2.dropped = UInt64.ofNat (k + (b.refuses (.send msg)).length) := by
  simp only [access, refuses, Bus.send]
  cases b.ring.push msg with
  | mk accepted ring =>
    cases accepted with
    | true => exact ⟨rfl, hcount⟩
    | false =>
      have htotal : b.dropped + 1 = UInt64.ofNat (k + 1) := by
        rw [hcount, UInt64.ofNat_add]
        rfl
      refine ⟨?_, htotal⟩
      show [(⟨msg.label, b.capacity, b.dropped + 1⟩ : Overflow)] = [warning b.capacity msg (k + 1)]
      rw [htotal]
      rfl

/-! ### Whole runs -/

/-- On the way from one bus to another, with these answers, these messages were added, were refused
and left. -/
structure Passage (b b' : Bus) (answers : List Answer) (added refused : List Message)
    (gone : List (Message × Fate)) : Prop where
  inOrder : b.ring.toList ++ added = gone.map Prod.fst ++ b'.ring.toList
  handedOut : answers.flatMap Answer.messages =
    (gone.filter (·.2 = .handedOut)).map Prod.fst
  warned : ∀ k, b.dropped = UInt64.ofNat k → answers.filterMap Answer.overflow? =
    (refused.zipIdx (k + 1)).map fun p => warning b.capacity p.1 p.2
  dropped : ∀ k, b.dropped = UInt64.ofNat k → b'.dropped = UInt64.ofNat (k + refused.length)
  capacity : b'.capacity = b.capacity

theorem Passage.refl (b : Bus) : Passage b b [] [] [] [] where
  inOrder := List.append_nil _
  handedOut := rfl
  warned _ _ := rfl
  dropped _ hcount := hcount
  capacity := rfl

/-- What passes through a bus on the way from one moment to the next adds up. -/
theorem Passage.append {b b' b'' : Bus} {xs ys : List Answer}
    {added added' refused refused' : List Message} {gone gone' : List (Message × Fate)}
    (hfirst : Passage b b' xs added refused gone) (hlater : Passage b' b'' ys added' refused' gone') :
    Passage b b'' (xs ++ ys) (added ++ added') (refused ++ refused') (gone ++ gone') where
  inOrder := by
    rw [List.map_append, List.append_assoc, ← hlater.inOrder, ← List.append_assoc,
      ← List.append_assoc, hfirst.inOrder]
  handedOut := by
    rw [List.flatMap_append, List.filter_append, List.map_append, hfirst.handedOut, hlater.handedOut]
  warned k hcount := by
    have hshift : k + 1 + refused.length = k + refused.length + 1 := by omega
    rw [List.filterMap_append, List.zipIdx_append, List.map_append, hfirst.warned k hcount,
      hlater.warned _ (hfirst.dropped k hcount), hfirst.capacity, hshift]
  dropped k hcount := by
    rw [hlater.dropped _ (hfirst.dropped k hcount), List.length_append, Nat.add_assoc]
  capacity := hlater.capacity.trans hfirst.capacity

/-- What one operation does to the messages of a bus. -/
theorem passage_access (b : Bus) (a : Access) :
    Passage b (b.access a).2 [(b.access a).1] (b.accepts a) (b.refuses a) (b.departs a) where
  inOrder := toList_access b a
  handedOut := by
    rw [List.flatMap_singleton]
    cases a with
    | send msg => rfl
    | clear => exact (congrArg (List.map Prod.fst) (filter_cleared _)).symm
    | _ => exact ((congrArg (List.map Prod.fst) (filter_handedOut _)).trans (fst_handedOut _)).symm
  warned k hcount := by
    cases a with
    | send msg => exact (warned_send b msg hcount).1
    | _ => rfl
  dropped k hcount := by
    cases a with
    | send msg => exact (warned_send b msg hcount).2
    | _ => exact hcount
  capacity := capacity_access b a

theorem passage_after (b : Bus) (accesses : List Access) :
    Passage b (b.after accesses) ((b.trace accesses).map Prod.fst) (b.along accepts accesses)
      (b.along refuses accesses) (b.along departs accesses) := by
  induction accesses generalizing b with
  | nil => exact .refl b
  | cons a rest ih => exact (passage_access b a).append (ih (b.access a).2)

/-- To take the lock and to give it back moves no message. -/
theorem Passage.release {b b' : Bus} {xs : List Answer} {added refused : List Message}
    {gone : List (Message × Fate)} (hp : Passage b b' xs added refused gone) (breaksDown : Bool) :
    Passage b (b'.release breaksDown) xs added refused gone :=
  ⟨hp.inOrder, hp.handedOut, hp.warned, hp.dropped, hp.capacity⟩

theorem passage_use (b : Bus) (u : Use) :
    Passage b (b.use u).2 ((b.use u).1.map Prod.fst) (b.along accepts u.accesses)
      (b.along refuses u.accesses) (b.along departs u.accesses) := by
  have hheld := passage_after b u.accesses
  cases u with
  | call a =>
    rw [use, call, bus_lock]
    exact hheld.release false
  | transaction t =>
    rw [use, commit, bus_lock]
    exact hheld.release t.breaksDown

theorem passage_useAll (b : Bus) (uses : List Use) :
    Passage b (b.useAll uses).2 ((b.useAll uses).1.map Prod.fst) (b.alongUses accepts uses)
      (b.alongUses refuses uses) (b.alongUses departs uses) := by
  induction uses generalizing b with
  | nil => exact .refl b
  | cons u rest ih =>
    rw [useAll, List.map_append]
    exact (passage_use b u).append (ih (b.use u).2)

/-! ## 4. The whole -/

theorem length_fates (gone : List (Message × Fate)) :
    gone.length = gone.countP (·.2 = .handedOut) + gone.countP (·.2 = .cleared) := by
  have hothers : (fun p : Message × Fate => decide ¬ decide (p.2 = .handedOut) = true) =
      fun p => decide (p.2 = .cleared) := by
    funext ⟨msg, fate⟩
    cases fate <;> rfl
  rw [List.length_eq_countP_add_countP (fun p : Message × Fate => decide (p.2 = .handedOut)), hothers]

/-- What those who use a bus of `n` slots can rely on, after these uses of it. -/
structure Transparent (n : Nat) (uses : List Use) : Prop where
  /-- The answers are those of a list, and so is all that there is to see after each of them. -/
  alike : List.Forall₂ Alike ((withSlots n).useAll uses).1
    ((Mailbox.empty (max n 2 - 1)).trace (uses.flatMap Use.accesses))
  holds : ((withSlots n).useAll uses).2.Matches
    ((Mailbox.empty (max n 2 - 1)).after (uses.flatMap Use.accesses))
  /-- What was accepted has left in that order or is still there. -/
  inOrder : (withSlots n).alongUses accepts uses =
    ((withSlots n).alongUses departs uses).map Prod.fst ++ ((withSlots n).useAll uses).2.ring.toList
  balance : ((withSlots n).alongUses accepts uses).length =
    ((withSlots n).alongUses departs uses).countP (·.2 = .handedOut) +
      ((withSlots n).alongUses departs uses).countP (·.2 = .cleared) +
      ((withSlots n).useAll uses).2.length
  /-- What was handed out has come with an answer. -/
  handedOut : ((withSlots n).useAll uses).1.flatMap (·.1.messages) =
    (((withSlots n).alongUses departs uses).filter (·.2 = .handedOut)).map Prod.fst
  /-- Every refusal is counted. -/
  dropped : ((withSlots n).useAll uses).2.dropped.toNat =
    ((withSlots n).alongUses refuses uses).length % UInt64.size
  /-- The `j`-th refusal is announced with the total `j`. -/
  warned : (((withSlots n).useAll uses).1.filterMap (·.1.overflow?)).map
      (fun o => (o.label, o.capacity, o.total.toNat)) =
    (((withSlots n).alongUses refuses uses).zipIdx 1).map
      fun p => (p.1.label, max n 2 - 1, p.2 % UInt64.size)

/-- Calls and transactions, whether they break down or not, are transparent, and nothing is lost
silently. -/
theorem transparent (n : Nat) (uses : List Use) : Transparent n uses := by
  obtain ⟨halike, hholds⟩ := alike_useAll (matches_withSlots n) uses
  have hpassage := passage_useAll (withSlots n) uses
  have hinOrder := hpassage.inOrder
  have hdropped := hpassage.dropped 0 rfl
  have hwarned := hpassage.warned 0 rfl
  have hhandedOut := hpassage.handedOut
  have hnothing : (withSlots n).ring.toList = [] := Ring.toList_withSlots n
  have hcapacity : (withSlots n).capacity = max n 2 - 1 := (matches_withSlots n).limit_eq.symm
  rw [hnothing, List.nil_append] at hinOrder
  rw [List.flatMap_map] at hhandedOut
  rw [List.filterMap_map] at hwarned
  refine ⟨halike, hholds, hinOrder, ?_, hhandedOut, ?_, ?_⟩
  · rw [hinOrder, List.length_append, List.length_map, length_fates, Ring.length_toList]
    rfl
  · rw [hdropped, Nat.zero_add]
    exact UInt64.toNat_ofNat
  · rw [show (fun p : Answer × Bus => p.1.overflow?) = Answer.overflow? ∘ Prod.fst from rfl, hwarned,
      List.map_map, hcapacity]
    rfl

-- A bus with room for one message, in the hands of one who takes it and breaks down.
example (x y z : Message) :
    ((withSlots 2).useAll [.call (.send x), .transaction ⟨[.send y, .drainMany 1, .send z], true⟩,
      .call .receive]).1.map Prod.fst =
    [.sent none, .sent (some ⟨y.label, 1, 1⟩), .drained [x], .sent none, .received (some z)] := by
  cbv

end Bus

end Cadence
