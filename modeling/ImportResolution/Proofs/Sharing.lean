/-
One memory that several workers share. A worker looks a key up, and what it
finds is its answer; where it finds nothing it works out an answer of its own,
brings it to the memory, and takes what the memory then keeps. Looking up and
bringing are one step each, and the steps of the workers may come in any order.

# What holds in every order

Two workers may miss one key and work out different answers, but only the first
that is brought is kept, and every worker takes what is kept. So all who ask for
a key agree, for good. The counts are right as well: a worker that has missed a
key and not yet brought an answer owes one, and every miss is either owed or
brought (`Tally`). From this one invariant of a step (`tally_step`) follows what
holds of every run (`run_agrees`).

A call of a locator is the resolve of a worker that no other interrupts
(`run_resolveCall`).
-/
import ImportResolution.Proofs.Locator.Recall
import ImportResolution.Proofs.Memo
import Mathlib.Data.List.Perm.Basic

namespace ImportResolution

namespace Sharing

variable {κ α : Type}

-- ============================================================== workers

/-- How far a worker has come. -/
inductive Stage (κ α : Type) where
  /-- It resolves nothing. -/
  | idle
  /-- It has found nothing for a key. -/
  | missed (key : κ)
  /-- It has worked out an answer for a key that it has found nothing for. -/
  | ready (key : κ) (answer : α)
deriving DecidableEq, Repr

/-- Whether a worker has missed a key and not yet brought an answer. -/
def Stage.owes : Stage κ α → Bool
  | .idle => false
  | .missed _ => true
  | .ready _ _ => true

/-- A memory and the workers that share it. -/
structure Team (κ α : Type) where
  memo : Memo κ α
  workers : List (Stage κ α)

/-- Some workers that resolve nothing, and a memory without answers. -/
def Team.start (n : Nat) : Team κ α := ⟨.empty, List.replicate n .idle⟩

/-- What a step has come to. -/
inductive Event (κ α : Type) where
  /-- A key was looked up. -/
  | looked (key : κ) (found : Option α)
  /-- An answer was worked out. -/
  | worked (key : κ) (answer : α)
  /-- An answer was brought, and the memory kept one for the key. -/
  | brought (key : κ) (answer kept : α)
deriving DecidableEq, Repr

/-- One step of one of the workers. The answer that is worked out may be any. -/
inductive Step [DecidableEq κ] : Team κ α → Event κ α → Team κ α → Prop where
  | hit {t : Team κ α} {i : Nat} {key : κ} {answer : α} (idle : t.workers[i]? = some .idle)
      (found : (t.memo.get? key).1 = some answer) :
      Step t (.looked key (some answer)) { t with memo := (t.memo.get? key).2 }
  | miss {t : Team κ α} {i : Nat} {key : κ} (idle : t.workers[i]? = some .idle)
      (found : (t.memo.get? key).1 = none) :
      Step t (.looked key none) ⟨(t.memo.get? key).2, t.workers.set i (.missed key)⟩
  | work {t : Team κ α} {i : Nat} {key : κ} (missed : t.workers[i]? = some (.missed key))
      (answer : α) :
      Step t (.worked key answer) { t with workers := t.workers.set i (.ready key answer) }
  | bring {t : Team κ α} {i : Nat} {key : κ} {answer : α}
      (ready : t.workers[i]? = some (.ready key answer)) :
      Step t (.brought key answer (t.memo.insert key answer).1)
        ⟨(t.memo.insert key answer).2, t.workers.set i .idle⟩

/-- Steps of the workers in some order, with what they have come to, first to
last. -/
inductive Run [DecidableEq κ] : Team κ α → List (Event κ α) → Team κ α → Prop where
  | nil {t : Team κ α} : Run t [] t
  | snoc {t t' t'' : Team κ α} {events : List (Event κ α)} {e : Event κ α}
      (run : Run t events t') (step : Step t' e t'') : Run t (events ++ [e]) t''

/-- How many workers owe an answer. -/
def owing (workers : List (Stage κ α)) : Nat := workers.countP Stage.owes

/-- How many workers owe an answer after one of them has gone on. -/
theorem owing_set {workers : List (Stage κ α)} {i : Nat} {stage : Stage κ α}
    (h : workers[i]? = some stage) (next : Stage κ α) :
    owing (workers.set i next) + (if stage.owes then 1 else 0)
      = owing workers + (if next.owes then 1 else 0) := by
  obtain ⟨hi, hstage⟩ := List.getElem?_eq_some_iff.mp h
  have hpos : stage.owes = true → 0 < workers.countP Stage.owes := fun howes =>
    List.countP_pos_iff.mpr ⟨stage, hstage ▸ List.getElem_mem hi, howes⟩
  rw [owing, owing, List.countP_set hi, hstage]
  split
  · next howes => have := hpos howes; omega
  · omega

-- =============================================================== events

namespace Event

/-- The key that was looked up. -/
def lookedUp? : Event κ α → Option κ
  | .looked key _ => some key
  | _ => none

/-- The key that an answer was brought for. -/
def broughtFor? : Event κ α → Option κ
  | .brought key _ _ => some key
  | _ => none

/-- The key and the answer of a resolve that has ended. -/
def resolved? : Event κ α → Option (κ × α)
  | .looked key found => found.map (key, ·)
  | .worked _ _ => none
  | .brought key _ kept => some (key, kept)

end Event

/-- The keys that were looked up, one for each look-up. -/
def lookUps (events : List (Event κ α)) : List κ := events.filterMap Event.lookedUp?

/-- The keys that answers were brought for, one for each answer. -/
def deliveries (events : List (Event κ α)) : List κ := events.filterMap Event.broughtFor?

theorem lookUps_concat (events : List (Event κ α)) (e : Event κ α) :
    lookUps (events ++ [e]) = lookUps events ++ e.lookedUp?.toList := by
  rw [lookUps, List.filterMap_append]
  cases e <;> rfl

theorem deliveries_concat (events : List (Event κ α)) (e : Event κ α) :
    deliveries (events ++ [e]) = deliveries events ++ e.broughtFor?.toList := by
  rw [deliveries, List.filterMap_append]
  cases e <;> rfl

/-- Some resolve of the key has ended with the answer. -/
def Resolved (events : List (Event κ α)) (key : κ) (answer : α) : Prop :=
  ∃ e ∈ events, e.resolved? = some (key, answer)

variable [DecidableEq κ]

-- ============================================================ one step

/-- What a step leaves in memory stays. -/
theorem peek?_step {t t' : Team κ α} {e : Event κ α} (h : Step t e t') {key : κ} {answer : α}
    (hk : t.memo.peek? key = some answer) : t'.memo.peek? key = some answer := by
  cases h with
  | hit idle found => rw [Memo.peek?_get?, hk]
  | miss idle found => rw [Memo.peek?_get?, hk]
  | work missed answer => exact hk
  | bring ready => rw [Memo.peek?_insert, hk, Option.some_or]

/-- A resolve that ends in a step ends with what is in memory after it. -/
theorem peek?_of_resolved {t t' : Team κ α} {e : Event κ α} (h : Step t e t') {key : κ}
    {answer : α} (he : e.resolved? = some (key, answer)) : t'.memo.peek? key = some answer := by
  cases h with
  | hit idle found =>
      obtain ⟨rfl, rfl⟩ := Prod.mk.inj (Option.some.inj he)
      rw [Memo.get?_fst] at found
      rw [Memo.peek?_get?, found]
  | miss idle found => cases he
  | work missed answer => cases he
  | bring ready =>
      obtain ⟨rfl, rfl⟩ := Prod.mk.inj (Option.some.inj he)
      exact Memo.peek?_insert_self _ _ _

/-- A step enters the key that an answer was brought for, and no key twice. -/
theorem keys_step {t t' : Team κ α} {e : Event κ α} (h : Step t e t')
    (hnodup : (Table.keys t.memo.entries).Nodup) :
    (Table.keys t'.memo.entries).Nodup ∧ ∀ k, k ∈ Table.keys t'.memo.entries
      ↔ k ∈ Table.keys t.memo.entries ∨ k ∈ e.broughtFor?.toList := by
  cases h with
  | hit idle found =>
      rw [Memo.get?_snd_of_hit found]
      exact ⟨hnodup, fun k => (or_iff_left List.not_mem_nil).symm⟩
  | miss idle found =>
      rw [Memo.get?_snd_of_miss found]
      exact ⟨hnodup, fun k => (or_iff_left List.not_mem_nil).symm⟩
  | work missed answer => exact ⟨hnodup, fun k => (or_iff_left List.not_mem_nil).symm⟩
  | @bring i key answer ready =>
      obtain ⟨hnodup', hkeys⟩ := Memo.keys_insert t.memo key answer hnodup
      refine ⟨hnodup', fun k => (hkeys k).trans ?_⟩
      rw [Event.broughtFor?, Option.toList_some, List.mem_singleton]

/-- A step counts the look-up that it is. -/
theorem counts_step {t t' : Team κ α} {e : Event κ α} (h : Step t e t') :
    t'.memo.hits + t'.memo.misses = t.memo.hits + t.memo.misses + e.lookedUp?.toList.length := by
  cases h with
  | hit idle found =>
      rw [Memo.get?_snd_of_hit found]
      exact Nat.add_right_comm ..
  | miss idle found =>
      rw [Memo.get?_snd_of_miss found]
      rfl
  | work missed answer => rfl
  | bring ready =>
      obtain ⟨hhits, hmisses⟩ := Memo.counts_insert t.memo _ _
      rw [hhits, hmisses]
      rfl

/-- A miss is owed from its step on, until an answer is brought. -/
theorem owing_step {t t' : Team κ α} {e : Event κ α} (h : Step t e t') :
    t'.memo.misses + owing t.workers
      = t.memo.misses + e.broughtFor?.toList.length + owing t'.workers := by
  cases h with
  | hit idle found =>
      rw [Memo.get?_snd_of_hit found]
      rfl
  | @miss i key idle found =>
      have howing : owing (t.workers.set i (.missed key)) + 0 = owing t.workers + 1 :=
        owing_set idle (.missed key)
      rw [Memo.get?_snd_of_miss found]
      show t.memo.misses + 1 + owing t.workers
        = t.memo.misses + 0 + owing (t.workers.set i (.missed key))
      omega
  | @work i key missed answer =>
      have howing : owing (t.workers.set i (.ready key answer)) + 1 = owing t.workers + 1 :=
        owing_set missed (.ready key answer)
      show t.memo.misses + owing t.workers
        = t.memo.misses + 0 + owing (t.workers.set i (.ready key answer))
      omega
  | @bring i key answer ready =>
      have howing : owing (t.workers.set i .idle) + 1 = owing t.workers + 0 :=
        owing_set ready .idle
      obtain ⟨-, hmisses⟩ := Memo.counts_insert t.memo key answer
      show (t.memo.insert key answer).2.misses + owing t.workers
        = t.memo.misses + 1 + owing (t.workers.set i .idle)
      rw [hmisses]
      omega

-- ============================================================ the tally

/-- The memory and the workers are what the events have made of them. -/
structure Tally (events : List (Event κ α)) (t : Team κ α) : Prop where
  /-- Every resolve that has ended was answered with what is in memory. -/
  agreed : ∀ key answer, Resolved events key answer → t.memo.peek? key = some answer
  /-- No key is in memory twice. -/
  nodup : (Table.keys t.memo.entries).Nodup
  /-- The keys in memory are those that answers were brought for. -/
  keys : ∀ key, key ∈ Table.keys t.memo.entries ↔ key ∈ deliveries events
  /-- Every look-up was a hit or a miss. -/
  counted : t.memo.hits + t.memo.misses = (lookUps events).length
  /-- Every miss was followed by an answer that was brought, or one is owed. -/
  owed : t.memo.misses = (deliveries events).length + owing t.workers

theorem tally_start (n : Nat) : Tally [] (Team.start n : Team κ α) where
  agreed := fun _ _ ⟨_, he, _⟩ => absurd he List.not_mem_nil
  nodup := List.nodup_nil
  keys := fun _ => Iff.rfl
  counted := rfl
  owed := by
    have hidle : owing (Team.start n : Team κ α).workers = 0 := by
      rw [owing, Team.start, List.countP_replicate]
      rfl
    rw [hidle]
    rfl

/-- A step keeps the tally. -/
theorem tally_step {events : List (Event κ α)} {t t' : Team κ α} {e : Event κ α}
    (h : Tally events t) (hstep : Step t e t') : Tally (events ++ [e]) t' := by
  have hagreed : ∀ key answer, Resolved (events ++ [e]) key answer →
      t'.memo.peek? key = some answer := by
    rintro key answer ⟨e', he', hresolved⟩
    rcases List.mem_append.mp he' with he' | he'
    · exact peek?_step hstep (h.agreed key answer ⟨e', he', hresolved⟩)
    · rw [List.mem_singleton.mp he'] at hresolved
      exact peek?_of_resolved hstep hresolved
  obtain ⟨hnodup, hkeys⟩ := keys_step hstep h.nodup
  have hcounts := counts_step hstep
  have howing := owing_step hstep
  have hcounted := h.counted
  have howed := h.owed
  refine ⟨hagreed, hnodup, fun key => ?_, ?_, ?_⟩
  · rw [hkeys, h.keys, deliveries_concat, List.mem_append]
  · rw [lookUps_concat, List.length_append]
    omega
  · rw [deliveries_concat, List.length_append]
    omega

-- =============================================================== runs

theorem Run.tally {n : Nat} {events : List (Event κ α)} {t : Team κ α}
    (h : Run (Team.start n) events t) : Tally events t := by
  induction h with
  | nil => exact tally_start n
  | snoc run step ih => exact tally_step ih step

/-- What is in memory stays in every run. -/
theorem Run.peek? {t t' : Team κ α} {events : List (Event κ α)} (h : Run t events t') {key : κ}
    {answer : α} (hk : t.memo.peek? key = some answer) : t'.memo.peek? key = some answer := by
  induction h with
  | nil => exact hk
  | snoc run step ih => exact peek?_step step ih

/-- There are as many answers in memory as there are different keys that answers
were brought for. -/
theorem Tally.size_eq {events : List (Event κ α)} {t : Team κ α} (h : Tally events t) :
    t.memo.size = (deliveries events).dedup.length :=
  Memo.size_eq_of_keys h.nodup h.keys

/-- However the steps of any number of workers that share a memory are ordered: all
resolves of a key that have ended have one answer; what is in memory stays as it
is; there are as many answers in memory as different keys for which answers were
brought, and no more than misses; and hits and misses together are the look-ups.
As long as the number of look-ups fits in a word, both counts do. -/
theorem run_agrees {n : Nat} {events : List (Event κ α)} {t : Team κ α}
    (h : Run (Team.start n) events t) :
    (∀ key a b, Resolved events key a → Resolved events key b → a = b) ∧
      (∀ later t', Run t later t' → ∀ key answer, t.memo.peek? key = some answer →
        t'.memo.peek? key = some answer) ∧
      t.memo.size = (deliveries events).dedup.length ∧
      t.memo.size ≤ t.memo.misses ∧
      t.memo.hits + t.memo.misses = (lookUps events).length ∧
      ((lookUps events).length < UInt64.size → (UInt64.ofNat t.memo.hits).toNat = t.memo.hits ∧
        (UInt64.ofNat t.memo.misses).toNat = t.memo.misses) := by
  have htally := h.tally
  have hcounted := htally.counted
  refine ⟨fun key a b ha hb => ?_, fun later t' hlater key answer hk => hlater.peek? hk,
    htally.size_eq, ?_, hcounted, fun hlt => ?_⟩
  · have hkept := htally.agreed key a ha
    rw [htally.agreed key b hb] at hkept
    exact (Option.some.inj hkept).symm
  · calc t.memo.size = (deliveries events).dedup.length := htally.size_eq
      _ ≤ (deliveries events).length := (List.dedup_sublist _).length_le
      _ ≤ t.memo.misses := by have := htally.owed; omega
  · exact ⟨UInt64.toNat_ofNat_of_lt' (by omega), UInt64.toNat_ofNat_of_lt' (by omega)⟩

/-- Two workers miss one key and work out different answers. The second one brings
its answer first, and both take it. -/
theorem run_agrees_race :
    let key := ("dep", "apps/app")
    let events : List (Event (String × String) (Option String)) :=
      [.looked key none, .looked key none, .worked key (some "lib"), .worked key none,
        .brought key none none, .brought key (some "lib") none]
    let t : Team (String × String) (Option String) := ⟨⟨[(key, none)], 0, 2⟩, [.idle, .idle]⟩
    Run (Team.start 2) events t ∧
      (∀ key a b, Resolved events key a → Resolved events key b → a = b) ∧
      t.memo.size = (deliveries events).dedup.length ∧ t.memo.size ≤ t.memo.misses ∧
      t.memo.hits + t.memo.misses = (lookUps events).length := by
  intro key events t
  have hrun : Run (Team.start 2) events t := by
    refine .snoc (.snoc (.snoc (.snoc (.snoc (.snoc .nil
      (.miss (i := 0) rfl rfl)) (.miss (i := 1) rfl rfl)) (.work (i := 0) rfl (some "lib")))
      (.work (i := 1) rfl none)) (.bring (i := 1) rfl)) (.bring (i := 0) rfl)
  obtain ⟨hagree, -, hsize, hle, hcount, -⟩ := run_agrees hrun
  exact ⟨hrun, hagree, hsize, hle, hcount⟩

-- ====================================================== calls of a locator

/-- Whatever the others are doing, a worker can go on: with any key if it resolves
nothing, and with any answer if it has missed a key. -/
theorem exists_step {t : Team κ α} {i : Nat} {stage : Stage κ α} (h : t.workers[i]? = some stage)
    (key : κ) (answer : α) : ∃ e t', Step t e t' := by
  cases stage with
  | idle =>
      cases hfound : (t.memo.get? key).1 with
      | some found => exact ⟨_, _, .hit h hfound⟩
      | none => exact ⟨_, _, .miss h hfound⟩
  | missed missed => exact ⟨_, _, .work h answer⟩
  | ready key answer => exact ⟨_, _, .bring h⟩

/-- A call of a locator is the resolve of one worker: the key is looked up, and what
the strategies come to for a missed key is brought. The other workers rest. -/
theorem run_resolveCall (l : Locator) (c : Locator.Call) (m : Locator.Memory)
    {workers : List (Stage (String × String) (Option String))} {i : Nat}
    (idle : workers[i]? = some .idle) :
    ∃ events, Run ⟨m.answers, workers⟩ events ⟨(l.resolveCall c m).2.answers, workers⟩ ∧
      lookUps events = [c.slot] ∧ Resolved events c.slot (l.resolveCall c m).1.result := by
  cases hk : m.answers.peek? c.slot with
  | some answer =>
      rw [Locator.resolveCall_of_known hk]
      have hfound := (m.answers.get?_fst c.slot).trans hk
      exact ⟨_, .snoc .nil (.hit idle hfound), rfl, _, List.mem_singleton_self _, rfl⟩
  | none =>
      rw [Locator.resolveCall_of_unknown_run hk]
      let answer := (l.outcome c (m.asked c)).1.1
      have hanswers : (l.outcome c (m.asked c)).2.answers = (m.answers.get? c.slot).2 :=
        Locator.tryStrategies_answers ..
      obtain ⟨hi, hidle⟩ := List.getElem?_eq_some_iff.mp idle
      have hmiss : Step ⟨m.answers, workers⟩ (.looked c.slot none)
          ⟨(m.answers.get? c.slot).2, workers.set i (.missed c.slot)⟩ :=
        .miss idle ((m.answers.get?_fst c.slot).trans hk)
      have hwork : Step ⟨(m.answers.get? c.slot).2, workers.set i (.missed c.slot)⟩
          (.worked c.slot answer)
          ⟨(m.answers.get? c.slot).2, workers.set i (.ready c.slot answer)⟩ := by
        have hstep := Step.work (t := ⟨(m.answers.get? c.slot).2, workers.set i (.missed c.slot)⟩)
          (List.getElem?_set_self hi) answer
        rw [List.set_set] at hstep
        exact hstep
      have hbring : Step ⟨(m.answers.get? c.slot).2, workers.set i (.ready c.slot answer)⟩
          (.brought c.slot answer ((m.answers.get? c.slot).2.insert c.slot answer).1)
          ⟨((m.answers.get? c.slot).2.insert c.slot answer).2, workers⟩ := by
        have hstep := Step.bring
          (t := ⟨(m.answers.get? c.slot).2, workers.set i (.ready c.slot answer)⟩)
          (List.getElem?_set_self hi)
        rw [List.set_set, ← hidle, List.set_getElem_self] at hstep
        exact hstep
      simp only [hanswers]
      exact ⟨_, .snoc (.snoc (.snoc .nil hmiss) hwork) hbring, rfl, _,
        List.mem_append_right _ (List.mem_singleton_self _), rfl⟩

end Sharing

end ImportResolution
