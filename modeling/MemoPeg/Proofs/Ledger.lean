import MemoPeg.Proofs.Mirror
import MemoPeg.Proofs.Phrases

/-
  The books of the memo table.

  1. **Counts** — how often the events of an engine show a key asked for, its entry made and found in
     progress, and the rounds of its growth.
  2. **Accounts (`Key.Accounts`)** — what the events of a run do to the entry of a key.  No entry without
     events; an entry that is there only counts its uses, and is marked if its rule is still being
     tried; an entry that is made is settled by the end of the run.
  3. **An open call (`Engine.Opened`)** — the same in the middle of a call: its own entry is there and
     may change, every other entry accounts for the events.
  4. **The crux (`accounts_property`)** — every run accounts for its events.  A growing rule enters one
     round for each end of its match, in ascending order, and the last of them is the end it keeps.
  5. **Moments (`Engine.Meanwhile`)** — what holds between an engine and a task that is run on it.

  An entry is seen only as it is now; how it came to be so is in the events.  The accounts tie the two
  together, for each key by itself, and add up: the accounts of two runs in succession are those of both
  (`Accounts.trans`).  Only the key of an open call does not account yet.  It may be asked for again from
  within, and must not be taken for another call of the same key, which is why a moment leaves the keys of
  open calls out.
-/

namespace MemoPeg

/-! ## Counts -/

/-- The key that a call through the memo table has asked for. -/
def Event.asks? : Event → Option Key
  | .opened key | .foundInProgress key | .foundMatch key | .foundFailure key => some key
  | .growing _ _ | .attempting _ _ _ | .matched _ _ _ _ | .failed _ _ _ | .crossing _ _ _ | .blamed _ _
  | .performed _ => none

/-- The key whose rule is invoked right after the event. -/
def Event.enters? : Event → Option Key
  | .opened key | .growing key _ => some key
  | .foundInProgress _ | .foundMatch _ | .foundFailure _ | .attempting _ _ _ | .matched _ _ _ _
  | .failed _ _ _ | .crossing _ _ _ | .blamed _ _ | .performed _ => none

/-- An event that asks for a key is about it. -/
theorem Event.key?_of_asks {event : Event} {key : Key} (h : event.asks? = some key) :
    event.key? = some key := by
  cases event <;> first | exact h | cases h

/-- An event that enters the body of a rule is about the key. -/
theorem Event.key?_of_enters {event : Event} {key : Key} (h : event.enters? = some key) :
    event.key? = some key := by
  cases event <;> first | exact h | cases h

/-- An event that is about a key reports no failure. -/
theorem Event.failure?_of_key {event : Event} {key : Key} (h : event.key? = some key) :
    event.failure? = none := by
  cases event <;> first | rfl | cases h

/-- The end that a round of the growth of the key is to go beyond. -/
def Event.past? (key : Key) : Event → Option Nat
  | .growing k past => if k = key then some past else none
  | _ => none

namespace Key

/-- How often the key was asked for through the memo table. -/
def asked (key : Key) (events : List Event) : Nat := events.countP fun event => event.asks? = some key

/-- How often an entry was made for the key. -/
def opened (key : Key) (events : List Event) : Nat := events.count (.opened key)

/-- The ends of the rounds in which the rule of the key has grown, in order: each round is to go beyond
    its own. -/
def rounds (key : Key) (events : List Event) : List Nat := events.filterMap (Event.past? key)

/-- The key was found in progress. -/
def reEntered (key : Key) (events : List Event) : Bool := .foundInProgress key ∈ events

/-- How often the body of the rule was entered through the memo table. -/
def entered (key : Key) (events : List Event) : Nat :=
  events.countP fun event => event.enters? = some key

/-- None of the events is about the key. -/
def Spared (key : Key) (events : List Event) : Prop := ∀ event ∈ events, event.key? ≠ some key

variable {key : Key} (xs ys : List Event)

@[simp] theorem asked_append : key.asked (xs ++ ys) = key.asked xs + key.asked ys :=
  List.countP_append

@[simp] theorem opened_append : key.opened (xs ++ ys) = key.opened xs + key.opened ys :=
  List.count_append

@[simp] theorem rounds_append : key.rounds (xs ++ ys) = key.rounds xs ++ key.rounds ys :=
  List.filterMap_append

@[simp] theorem reEntered_append :
    key.reEntered (xs ++ ys) = (key.reEntered xs || key.reEntered ys) := by
  simp only [reEntered, List.mem_append, Bool.decide_or]

/-- The body is entered right after the entry was made, and in each round of the growth. -/
theorem entered_eq (key : Key) (events : List Event) :
    key.entered events = key.opened events + (key.rounds events).length := by
  induction events with
  | nil => rfl
  | cons event events ih =>
    unfold entered opened rounds at ih ⊢
    rw [List.countP_cons, List.count_cons, List.filterMap_cons, ih]
    cases event with
    | opened k => by_cases h : k = key <;> simp [Event.enters?, Event.past?, h]; omega
    | growing k past => by_cases h : k = key <;> simp [Event.enters?, Event.past?, h]; omega
    | _ => simp [Event.enters?, Event.past?]

@[simp] theorem asked_self {event : Event} (h : event.asks? = some key) : key.asked [event] = 1 := by
  simp [asked, h]

@[simp] theorem opened_self : key.opened [.opened key] = 1 := by simp [opened]

@[simp] theorem rounds_self (past : Nat) : key.rounds [.growing key past] = [past] := by
  simp [rounds, Event.past?]

@[simp] theorem reEntered_self : key.reEntered [.foundInProgress key] = true := by simp [reEntered]

variable {xs ys}

/-- What spares a key in two parts spares it altogether. -/
theorem Spared.append (h : key.Spared xs) (k : key.Spared ys) : key.Spared (xs ++ ys) := by
  intro event hevent
  rcases List.mem_append.1 hevent with hevent | hevent
  · exact h event hevent
  · exact k event hevent

/-- A key that is spared is not asked for, so its entry counts no use. -/
theorem Spared.asked (h : key.Spared xs) : key.asked xs = 0 :=
  List.countP_eq_zero.2 fun event hevent hasks =>
    h event hevent (Event.key?_of_asks (of_decide_eq_true hasks))

/-- A key that is spared gets no entry. -/
theorem Spared.opened (h : key.Spared xs) : key.opened xs = 0 :=
  List.count_eq_zero.2 fun hmem => h _ hmem rfl

/-- A key that is spared is not grown. -/
theorem Spared.rounds (h : key.Spared xs) : key.rounds xs = [] := by
  refine List.filterMap_eq_nil_iff.2 fun event hevent => ?_
  have hkey := h event hevent
  cases event <;> simp_all [Event.past?, Event.key?]

/-- A key that is spared does not see itself. -/
theorem Spared.reEntered (h : key.Spared xs) : key.reEntered xs = false :=
  decide_eq_false fun hmem => h _ hmem rfl

/-- An event that is about no key spares every key. -/
theorem spared_of_none (event : Event) (h : event.key? = none) : key.Spared [event] := by
  intro other hother
  rw [List.mem_singleton.1 hother, h]
  exact fun heq => by cases heq

/-- An event that is about another key spares the key. -/
theorem spared_of_ne (event : Event) {other : Key} (h : event.key? = some other) (hne : other ≠ key) :
    key.Spared [event] := by
  intro event' hevent'
  rw [List.mem_singleton.1 hevent', h]
  exact fun heq => hne (Option.some.inj heq)

/-! ## Accounts -/

/-- The rule of the key was tried, and the answer is its own. -/
inductive Tried (key : Key) (new : List Event) : Answer → Prop
  | failed (hrounds : key.rounds new = []) : Tried key new (.parked .failed key.pos)
  | matched {stop : Nat} {value : Value} (hnot : key.reEntered new = false)
      (hrounds : key.rounds new = []) : Tried key new (.matched stop value)
  | grown {stop : Nat} {value : Value} (hre : key.reEntered new = true)
      (hrounds : (key.rounds new).Pairwise (· < ·)) (hlast : (key.rounds new).getLast? = some stop) :
      Tried key new (.matched stop value)

/-- What the events of a run do to the entry of the key. -/
inductive Accounts (key : Key) (new : List Event) : Option Entry → Option Entry → Prop
  | unasked (h : key.Spared new) : Accounts key new none none
  | used {answer : Answer} {uses uses' : Nat}
      (hfinal : ∀ detected, answer.status ≠ .inProgress detected)
      (hopened : key.opened new = 0) (hrounds : key.rounds new = []) (hnot : key.reEntered new = false)
      (huses : uses' = uses + key.asked new) :
      Accounts key new (some ⟨answer, uses⟩) (some ⟨answer, uses'⟩)
  | trying {detected detected' : Bool} {stop : Nat} {value : Value} {uses uses' : Nat}
      (hopened : key.opened new = 0) (hrounds : key.rounds new = [])
      (hmark : detected' = (detected || key.reEntered new)) (huses : uses' = uses + key.asked new) :
      Accounts key new (some ⟨⟨.inProgress detected, stop, value⟩, uses⟩)
        (some ⟨⟨.inProgress detected', stop, value⟩, uses'⟩)
  | tried {answer : Answer} {uses' : Nat} (hopened : key.opened new = 1) (htried : key.Tried new answer)
      (huses : uses' = key.asked new) : Accounts key new none (some ⟨answer, uses'⟩)

/-- Once the first try of a key has been settled, its entry is no longer in progress. -/
theorem Tried.final {answer : Answer} (h : key.Tried xs answer) (detected : Bool) :
    answer.status ≠ .inProgress detected := by
  cases h <;> exact fun heq => by cases heq

/-- How a rule was tried shows in the rounds and the re-entries only. -/
theorem Tried.congr {answer : Answer} (h : key.Tried xs answer) (hrounds : key.rounds ys = key.rounds xs)
    (hre : key.reEntered ys = key.reEntered xs) : key.Tried ys answer := by
  cases h with
  | failed hnil => exact .failed (hrounds.trans hnil)
  | matched hnot hnil => exact .matched (hre.trans hnot) (hrounds.trans hnil)
  | grown hre' hsorted hlast => exact .grown (hre.trans hre') (hrounds ▸ hsorted) (hrounds ▸ hlast)

/-- Events that spare the key leave its entry alone. -/
theorem Spared.accounts (h : key.Spared xs) (entry : Option Entry) : key.Accounts xs entry entry := by
  match entry with
  | none => exact .unasked h
  | some ⟨⟨status, stop, value⟩, uses⟩ =>
    have huses : uses = uses + key.asked xs := by rw [h.asked]; rfl
    cases status with
    | inProgress detected =>
      exact .trying h.opened h.rounds (by rw [h.reEntered, Bool.or_false]) huses
    | matched =>
      exact .used (fun _ heq => by cases heq) h.opened h.rounds h.reEntered huses
    | failed => exact .used (fun _ heq => by cases heq) h.opened h.rounds h.reEntered huses

/-- Accounts of one run and of the next are accounts of both. -/
theorem Accounts.trans {a b c : Option Entry} (h : key.Accounts xs a b) (k : key.Accounts ys b c) :
    key.Accounts (xs ++ ys) a c := by
  -- An entry in progress comes from one that was in progress, so what has been settled does not turn
  -- back; the other pairs add up.
  cases h with
  | unasked hspared =>
    cases k with
    | unasked hspared' => exact .unasked (hspared.append hspared')
    | tried hopened htried huses =>
      exact .tried (by rw [opened_append, hspared.opened, hopened])
        (htried.congr (by rw [rounds_append, hspared.rounds]; rfl)
          (by rw [reEntered_append, hspared.reEntered, Bool.false_or]))
        (by rw [asked_append, hspared.asked, Nat.zero_add, huses])
  | used hfinal hopened hrounds hnot huses =>
    cases k with
    | used _ hopened' hrounds' hnot' huses' =>
      exact .used hfinal (by rw [opened_append, hopened, hopened'])
        (by rw [rounds_append, hrounds, hrounds']; rfl) (by rw [reEntered_append, hnot, hnot']; rfl)
        (by rw [asked_append, huses', huses, Nat.add_assoc])
    | trying _ _ _ _ => exact absurd rfl (hfinal _)
  | trying hopened hrounds hmark huses =>
    cases k with
    | used hfinal _ _ _ _ => exact absurd rfl (hfinal _)
    | trying hopened' hrounds' hmark' huses' =>
      exact .trying (by rw [opened_append, hopened, hopened'])
        (by rw [rounds_append, hrounds, hrounds']; rfl)
        (by rw [reEntered_append, hmark', hmark, Bool.or_assoc])
        (by rw [asked_append, huses', huses, Nat.add_assoc])
  | tried hopened htried huses =>
    cases k with
    | used _ hopened' hrounds' hnot' huses' =>
      exact .tried (by rw [opened_append, hopened, hopened'])
        (htried.congr (by rw [rounds_append, hrounds', List.append_nil])
          (by rw [reEntered_append, hnot', Bool.or_false]))
        (by rw [asked_append, huses', huses])
    | trying _ _ _ _ => exact absurd rfl (htried.final _)

end Key

/-! ## Runs account for their events -/

/-- What the run from one engine to the other has added to the events accounts for its entries. -/
def Engine.Accounts (e e' : Engine) : Prop :=
  e.Extends e' ∧ ∃ new, e'.events = e.events ++ new ∧
    ∀ key : Key, key.Accounts new (e.memo.find? key) (e'.memo.find? key)

/-- A call of the key has been opened since the first engine, and the second one holds the answer so far;
    every other entry accounts for the events since then. -/
structure Engine.Opened (key : Key) (e : Engine) (new : List Event) (answer : Answer) (e' : Engine) :
    Prop where
  extended : e.Extends e'
  events : e'.events = e.events ++ new
  others : ∀ other, key ≠ other → other.Accounts new (e.memo.find? other) (e'.memo.find? other)
  unknown : e.memo.find? key = none
  entry : e'.memo.find? key = some ⟨answer, key.asked new⟩
  once : key.opened new = 1

namespace Engine.Accounts

/-- A change of the engine that adds an event about no key, or none, and leaves the memo table alone. -/
theorem of_memo {e e' : Engine} (hext : e.Extends e') (hmemo : e'.memo = e.memo) {new : List Event}
    (hevents : e'.events = e.events ++ new) (hnew : ∀ key : Key, key.Spared new) : e.Accounts e' :=
  ⟨hext, new, hevents, fun key => hmemo ▸ (hnew key).accounts _⟩

/-- An engine accounts for itself, with no events. -/
theorem refl (e : Engine) : e.Accounts e :=
  .of_memo (.refl e) rfl (List.append_nil _).symm fun _ _ hmem => absurd hmem List.not_mem_nil

/-- What two runs in succession account for, both together do. -/
theorem trans {d e f : Engine} (h : d.Accounts e) (k : e.Accounts f) : d.Accounts f := by
  obtain ⟨hext, new, hevents, hkeys⟩ := h
  obtain ⟨kext, newer, kevents, kkeys⟩ := k
  refine ⟨hext.trans kext, new ++ newer, ?_, fun key => (hkeys key).trans (kkeys key)⟩
  rw [kevents, hevents, List.append_assoc]

/-- An event that is about no key changes no entry, and none has to be accounted for. -/
theorem note (e : Engine) (event : Event) (h : event.key? = none) : e.Accounts (e.note event) :=
  .of_memo (.of_note e event _ rfl rfl rfl) rfl (e.events_note event) fun _ => Key.spared_of_none event h

/-- Moving the cursor, setting the result and blaming do not touch the memo table. -/
theorem drift : EngineDrift Engine.Accounts where
  refl := .refl
  trans := .trans
  move e _ := .of_memo (.refl e) rfl (List.append_nil _).symm fun _ _ hmem => absurd hmem List.not_mem_nil
  result e _ := .of_memo (.refl e) rfl (List.append_nil _).symm fun _ _ hmem => absurd hmem List.not_mem_nil
  note e event h _ := .note e event h
  blame e c p := .of_memo (.of_note e (.blamed c p) _ rfl rfl rfl) rfl (e.events_blame c p)
    fun _ => Key.spared_of_none _ rfl

/-- A change of the engine that adds an event about one key and touches its entry at most. -/
theorem of_key {e e' : Engine} {key : Key} {event : Event} (hext : e.Extends e')
    (hevents : e'.events = e.events ++ [event]) (hevent : event.key? = some key)
    (hothers : ∀ other, key ≠ other → e'.memo.find? other = e.memo.find? other)
    (hkey : key.Accounts [event] (e.memo.find? key) (e'.memo.find? key)) : e.Accounts e' := by
  refine ⟨hext, [event], hevents, fun other => ?_⟩
  by_cases heq : key = other
  · subst heq
    exact hkey
  · rw [hothers other heq]
    exact (Key.spared_of_ne event hevent heq).accounts _

/-- A call that is answered from the memo table counts as a use of the entry. -/
theorem reuse {e : Engine} {key : Key} {entry : Entry} (hfind : e.memo.find? key = some entry) :
    e.Accounts (e.reuse key entry).2 := by
  have hused : ∀ other, (e.memo.use key).find? other =
      if key = other then some ⟨entry.answer, entry.uses + 1⟩ else e.memo.find? other := by
    intro other
    rw [Memo.use, Memo.find?_modify]
    split
    case isTrue heq => rw [← heq, hfind]; rfl
    case isFalse => rfl
  obtain ⟨⟨status, stop, value⟩, uses⟩ := entry
  -- Whatever the status is, one event asks for the key and one use is counted.
  cases status with
  | inProgress detected =>
    have hmarked : ∀ other,
        ((e.memo.use key).settle key ⟨.inProgress true, stop, value⟩).find? other =
          if key = other then some ⟨⟨.inProgress true, stop, value⟩, uses + 1⟩
          else e.memo.find? other := by
      intro other
      rw [Memo.settle, Memo.find?_modify, hused]
      split <;> rfl
    refine .of_key (.of_note e (.foundInProgress key) _ rfl rfl rfl) (e.events_note _) rfl
      (fun other hne => (hmarked other).trans (if_neg hne)) ?_
    show key.Accounts _ _ (((e.memo.use key).settle key ⟨.inProgress true, stop, value⟩).find? key)
    rw [hmarked, if_pos rfl, hfind]
    exact .trying rfl rfl (by rw [Key.reEntered_self, Bool.or_true]) (by rw [Key.asked_self rfl])
  | matched =>
    refine .of_key (.of_note e (.foundMatch key) _ rfl rfl rfl) (e.events_note _) rfl
      (fun other hne => (hused other).trans (if_neg hne)) ?_
    show key.Accounts _ _ ((e.memo.use key).find? key)
    rw [hused, if_pos rfl, hfind]
    exact .used (fun _ heq => by cases heq) rfl rfl rfl (by rw [Key.asked_self rfl])
  | failed =>
    refine .of_key (.of_note e (.foundFailure key) _ rfl rfl rfl) (e.events_note _) rfl
      (fun other hne => (hused other).trans (if_neg hne)) ?_
    show key.Accounts _ _ ((e.memo.use key).find? key)
    rw [hused, if_pos rfl, hfind]
    exact .used (fun _ heq => by cases heq) rfl rfl rfl (by rw [Key.asked_self rfl])

end Engine.Accounts

/-! ## Open calls -/

namespace Engine.Opened

variable {key : Key} {e m m' : Engine} {new : List Event} {answer : Answer}

/-- The entry that is made for a key that was unknown is in progress, is parked at the key and counts the one
    use that it was made for. -/
theorem opening (h : e.memo.find? key = none) :
    e.Opened key [.opened key] (.parked (.inProgress false) key.pos) (e.opening key) where
  extended := .opening key e
  events := events_opening key e
  others other hne := by
    rw [show (e.opening key).memo = e.memo.start key from rfl, Memo.find?_start, if_neg hne]
    exact (Key.spared_of_ne (.opened key) rfl hne).accounts _
  unknown := h
  entry := by
    rw [show (e.opening key).memo = e.memo.start key from rfl, Memo.find?_start, if_pos rfl,
      Key.asked_self rfl]
    rfl
  once := Key.opened_self

/-- An answer is recorded for the call. -/
theorem settle (h : e.Opened key new answer m) (answer' : Answer) :
    e.Opened key new answer' (m.settle key answer') where
  extended := h.extended.trans (.refl _)
  events := h.events
  others other hne := by
    rw [show (m.settle key answer').memo = m.memo.settle key answer' from rfl, Memo.settle,
      Memo.find?_modify, if_neg hne]
    exact h.others other hne
  unknown := h.unknown
  entry := by
    rw [show (m.settle key answer').memo = m.memo.settle key answer' from rfl, Memo.settle,
      Memo.find?_modify, if_pos rfl, h.entry]
    rfl
  once := h.once

/-- The rule of the call is about to be invoked again. -/
theorem regrowing (h : e.Opened key new answer m) (best : Nat) (value : Value) :
    e.Opened key (new ++ [.growing key best]) answer (m.regrowing key best value) where
  extended := h.extended.trans (.regrowing key best value m)
  events := by
    rw [← List.append_assoc, ← h.events]
    exact events_regrowing key best value m
  others other hne :=
    (h.others other hne).trans ((Key.spared_of_ne (.growing key best) rfl hne).accounts _)
  unknown := h.unknown
  entry := by
    rw [Key.asked_append]
    exact h.entry
  once := by
    rw [Key.opened_append, h.once]
    rfl

/-- What runs inside the call accounts for its entry as for any other. -/
theorem run (h : e.Opened key new answer m) (hrun : m.Accounts m') :
    ∃ newer answer', e.Opened key (new ++ newer) answer' m' ∧
      key.Accounts newer (some ⟨answer, key.asked new⟩) (some ⟨answer', key.asked (new ++ newer)⟩) := by
  obtain ⟨hext, newer, hevents, hkeys⟩ := hrun
  have hkey := hkeys key
  rw [h.entry] at hkey
  have hopened : ∀ answer', key.opened newer = 0 →
      m'.memo.find? key = some ⟨answer', key.asked (new ++ newer)⟩ →
      e.Opened key (new ++ newer) answer' m' := fun answer' honce hentry =>
    { extended := h.extended.trans hext
      events := by rw [hevents, h.events, List.append_assoc]
      others := fun other hne => (h.others other hne).trans (hkeys other)
      unknown := h.unknown
      entry := hentry
      once := by rw [Key.opened_append, h.once, honce] }
  -- The entry of the open call is there, so the run has used it or has come upon it in progress.
  generalize hafter : m'.memo.find? key = after at hkey
  cases hkey with
  | used hfinal honce hrounds hnot huses =>
    rw [← Key.asked_append] at huses
    subst huses
    exact ⟨newer, answer, hopened _ honce hafter, .used hfinal honce hrounds hnot (Key.asked_append _ _)⟩
  | @trying detected detected' stop value _ _ honce hrounds hmark huses =>
    rw [← Key.asked_append] at huses
    subst huses
    exact ⟨newer, ⟨.inProgress detected', stop, value⟩, hopened _ honce hafter,
      .trying honce hrounds hmark (Key.asked_append _ _)⟩

/-- While the rule is tried for the first time, re-entries mark its entry. -/
theorem trying {stop : Nat} {value : Value} (h : e.Opened key new ⟨.inProgress false, stop, value⟩ m)
    (hrun : m.Accounts m') : ∃ newer,
      e.Opened key (new ++ newer) ⟨.inProgress (key.reEntered newer), stop, value⟩ m' ∧
        key.rounds newer = [] := by
  obtain ⟨newer, answer', hopened, hkey⟩ := h.run hrun
  cases hkey with
  | used hfinal _ _ _ _ => exact absurd rfl (hfinal false)
  | trying _ hrounds hmark _ =>
    rw [Bool.false_or] at hmark
    subst hmark
    exact ⟨newer, hopened, hrounds⟩

/-- While the rule is tried again, its entry keeps the match so far. -/
theorem growing {stop : Nat} {value : Value} (h : e.Opened key new (.matched stop value) m)
    (hrun : m.Accounts m') : ∃ newer, e.Opened key (new ++ newer) (.matched stop value) m' ∧
      key.rounds newer = [] ∧ key.reEntered newer = false := by
  obtain ⟨newer, answer', hopened, hkey⟩ := h.run hrun
  cases hkey with
  | used _ _ hrounds hnot _ => exact ⟨newer, hopened, hrounds, hnot⟩

/-- A call that has been settled accounts for its events. -/
theorem close (h : e.Opened key new answer m) (htried : key.Tried new answer) : e.Accounts m := by
  refine ⟨h.extended, new, h.events, fun other => ?_⟩
  by_cases heq : key = other
  · subst heq
    rw [h.unknown, h.entry]
    exact .tried h.once htried rfl
  · exact h.others other heq

/-- A rule shows that it has called itself just if its entry has been marked. -/
theorem sawItself {marked : Bool} {stop : Nat} {value : Value}
    (h : e.Opened key new ⟨.inProgress marked, stop, value⟩ m) : m.sawItself key = marked := by
  unfold Engine.sawItself
  rw [h.entry]
  cases marked <;> rfl

/-- The cursor and the result may change. -/
theorem move (h : e.Opened key new answer m) (p : Nat) (v : Value) :
    e.Opened key new answer { m with pos := p, result := v } where
  extended := h.extended.trans (.refl _)
  events := h.events
  others := h.others
  unknown := h.unknown
  entry := h.entry
  once := h.once

end Engine.Opened

namespace Engine.Accounts

variable {r : Runner} (hr : ∀ rule args e o e', r.body rule args e = .ok (o, e') → e.Accounts e')
include hr

/-- Growth adds its rounds in ascending order, and the last one is for the end that it keeps. -/
theorem grow {key : Key} {e : Engine} : ∀ {fuel best : Nat} {value : Value} {new : List Event}
    {m : Engine} {o : Outcome} {e' : Engine}, e.Opened key new (.matched best value) m →
      m.grow r key fuel = .ok (o, e') → key.reEntered new = true →
        (key.rounds new ++ [best]).Pairwise (· < ·) →
          ∃ new', e.Opened key new' (o.answer key.pos) e' ∧ key.Tried new' (o.answer key.pos) := by
  intro fuel
  induction fuel with
  | zero => intro best value new m o e' _ hrun; cases hrun
  | succ fuel ih =>
    intro best value new m o e' hopened hrun hre hsorted
    -- The match so far is in the entry, so each look-up finds it.
    rcases Engine.grow_succ_eq_ok hrun with ⟨hnone, -⟩ | ⟨_, _, round, m', hfind, hround, hgrown⟩
    · rw [hopened.entry] at hnone
      cases hnone
    rw [hopened.entry] at hfind
    cases hfind
    obtain ⟨newer, hopened', hrounds, hnot⟩ :=
      (hopened.regrowing best value).growing (drift.invoke hr key.rule key.args _ _ _ hround)
    -- The rounds so far end with the one that has just been run.
    have hall : key.rounds (new ++ [.growing key best] ++ newer) = key.rounds new ++ [best] := by
      rw [Key.rounds_append, Key.rounds_append, Key.rounds_self, hrounds, List.append_nil]
    have hre' : key.reEntered (new ++ [.growing key best] ++ newer) = true := by
      rw [Key.reEntered_append, Key.reEntered_append, hre, Bool.true_or, Bool.true_or]
    rcases hgrown with ⟨stop, longer, -, hlonger, hrest⟩ | ⟨-, heq⟩
    · refine ih (hopened'.settle (.matched stop longer)) hrest hre' ?_
      rw [hall]
      refine List.pairwise_append.2 ⟨hsorted, List.pairwise_singleton _ _, fun past hpast last hlast => ?_⟩
      rw [List.mem_singleton.1 hlast]
      rcases List.mem_append.1 hpast with hpast | hpast
      · exact Nat.lt_trans ((List.pairwise_append.1 hsorted).2.2 past hpast best List.mem_cons_self) hlonger
      · rwa [List.mem_singleton.1 hpast]
    · obtain ⟨rfl, rfl⟩ : o = .matched best value ∧ e' = { m' with pos := best, result := value } := by
        rcases m'.grown_cases key with ⟨entry, hfind, hgrown⟩ | ⟨hnone, -⟩
        · rw [hopened'.entry] at hfind
          cases hfind
          exact Prod.mk.inj (heq.trans hgrown)
        · rw [hopened'.entry] at hnone
          cases hnone
      refine ⟨_, hopened'.move best value, .grown hre' (hall ▸ hsorted) ?_⟩
      rw [hall, List.getLast?_concat]

/-- A call of a key without an entry makes one, and leaves its own answer there. -/
theorem tried {fuel : Nat} {rule : RuleId} {args : List Value} {e : Engine} {o : Outcome} {e' : Engine}
    (hfind : e.memo.find? ⟨rule, e.pos, args⟩ = none) (hrun : e.apply r fuel rule args = .ok (o, e')) :
    ∃ new, e.Opened ⟨rule, e.pos, args⟩ new (o.answer e.pos) e' ∧
      Key.Tried ⟨rule, e.pos, args⟩ new (o.answer e.pos) := by
  rcases Engine.apply_eq_ok hrun with ⟨entry, hsome, -⟩ | ⟨-, first, m, hm, hrest⟩
  · rw [hfind] at hsome
    cases hsome
  · obtain ⟨newer, hopened, hrounds⟩ :=
      (Opened.opening hfind).trying (drift.invoke hr rule args _ _ _ hm)
    have hsaw := hopened.sawItself
    have hall : Key.rounds ⟨rule, e.pos, args⟩ ([.opened ⟨rule, e.pos, args⟩] ++ newer) = [] := by
      rw [Key.rounds_append, hrounds]
      rfl
    have hre : Key.reEntered ⟨rule, e.pos, args⟩ ([.opened ⟨rule, e.pos, args⟩] ++ newer) =
        Key.reEntered ⟨rule, e.pos, args⟩ newer := by
      rw [Key.reEntered_append]
      simp [Key.reEntered]
    rcases hrest with ⟨stop, value, -, hgrows, hgrown⟩ | ⟨stop, value, rfl, hnot, rfl, rfl⟩ |
      ⟨-, rfl, rfl⟩
    · exact grow hr (hopened.settle (.matched stop value)) hgrown (hre.trans (hsaw.symm.trans hgrows))
        (by rw [hall]; exact List.pairwise_singleton _ _)
    · exact ⟨_, hopened.settle _, .matched (hre.trans (hsaw.symm.trans hnot)) hall⟩
    · exact ⟨_, hopened.settle _, .failed hall⟩

/-- A call through the memo table accounts for its events. -/
theorem apply (fuel : Nat) (rule : RuleId) (args : List Value) :
    ∀ (e : Engine) o e', e.apply r fuel rule args = .ok (o, e') → e.Accounts e' := by
  intro e o e' hrun
  cases hfind : e.memo.find? ⟨rule, e.pos, args⟩ with
  | none =>
    obtain ⟨new, hopened, htried⟩ := tried hr hfind hrun
    exact hopened.close htried
  | some entry =>
    rcases Engine.apply_eq_ok hrun with ⟨entry', hsome, heq⟩ | ⟨hnone, -⟩
    · have haccounts := reuse hsome
      rw [← heq] at haccounts
      exact haccounts
    · rw [hfind] at hnone
      cases hnone

/-- A call into a linked rule set is no business of the caller's memo table. -/
theorem callForeign (fuel : Nat) (grammar : String) (rule : RuleId) (args : List Value) :
    ∀ (e : Engine) o e', e.callForeign r fuel grammar rule args = .ok (o, e') → e.Accounts e' := by
  intro e o e' hrun
  obtain ⟨inner, hinner, rfl⟩ := Engine.callForeign_eq_ok hrun
  have hnested := apply hr fuel rule args _ o inner hinner
  have hcrossed : e.Accounts { e with history := inner.history } :=
    (Accounts.note e (.crossing grammar (r.nameOf rule) e.pos) rfl).trans
      (.of_memo (extends_order.nested _ inner hnested.1) rfl
        ((events_nested hnested.1).trans (List.append_nil _).symm) fun _ _ hmem =>
          absurd hmem List.not_mem_nil)
  cases o with
  | matched stop value => exact hcrossed.trans ((drift.move _ stop).trans (drift.result _ value))
  | failed => exact hcrossed.trans (drift.blame _ _ _)

end Engine.Accounts

/-- **Every run accounts for its events.** -/
theorem accounts_property :
    StepProperty (fun s => ∀ f o g, s f = .ok (o, g) → f.engine.Accounts g.engine)
      (fun x => ∀ e o e', x e = .ok (o, e') → e.Accounts e') :=
  Engine.Accounts.drift.stepProperty (fun _ hr => Engine.Accounts.apply hr) fun _ hr =>
    Engine.Accounts.callForeign hr

variable [RegexLibrary]

/-! ## Tasks account for their events -/

/-- Bodies account for their events. -/
theorem RuleSet.body_accounts (n : Nat) (rs : RuleSet) : ∀ rule args e o e',
    (rs.runner n).body rule args e = .ok (o, e') → e.Accounts e' :=
  (accounts_property.everywhere n).1 rs

/-- Phrases account for their events. -/
theorem Phrase.accounts (x : Phrase) (n : Nat) :
    ∀ f o g, x.step n f = .ok (o, g) → f.engine.Accounts g.engine := by
  cases x with
  | operator g op => exact (accounts_property.everywhere n).2.1 g op
  | code p c => exact (accounts_property.everywhere n).2.2 p c

/-- A task that ends accounts for its events. -/
theorem Task.accounts {t : Task} {o : Outcome} {e' : Engine} (h : t.run = .ok (o, e')) :
    t.engine.Accounts e' := by
  cases t with
  | apply n rs rule args e => exact Engine.Accounts.apply (rs.body_accounts n) n rule args e o e' h
  | invoke n rs rule args e =>
    exact Engine.Accounts.drift.invoke (rs.body_accounts n) rule args e o e' h
  | cross n grammar rs rule args e =>
    exact Engine.Accounts.callForeign (rs.body_accounts n) n grammar rule args e o e' h
  | phrase n x f =>
    obtain ⟨m, hm, rfl⟩ := Step.inScope_eq_ok h
    exact x.accounts n f o m hm

/-- Phrases that have run account for their events. -/
theorem Ran.accounts {n : Nat} {matching : Bool} {parts : List Phrase} {f g : Frame}
    (h : Ran n matching parts f g) : f.engine.Accounts g.engine := by
  induction h with
  | nil f => exact .refl _
  | cons hx _ _ ih => exact (Phrase.accounts _ n _ _ _ hx).trans ih

/-- The call of a rule that has grown is open, and holds the match so far. -/
theorem GrownTo.opened {n : Nat} {rs : RuleSet} {key : Key} {e e' : Engine} {best : Nat} {value : Value}
    (h : GrownTo (rs.runner n) key e best value e') (hfind : e.memo.find? key = none) :
    ∃ new, e.Opened key new (.matched best value) e' := by
  have hinvoke := Engine.Accounts.drift.invoke (rs.body_accounts n) key.rule key.args
  induction h with
  | seed hfirst =>
    obtain ⟨newer, hopened, -⟩ := (Engine.Opened.opening hfind).trying (hinvoke _ _ _ hfirst)
    exact ⟨_, hopened.settle _⟩
  | longer _ hround _ ih =>
    obtain ⟨new, hopened⟩ := ih
    obtain ⟨newer, hopened', -⟩ := (hopened.regrowing _ _).growing (hinvoke _ _ _ hround)
    exact ⟨_, hopened'.settle _⟩

/-! ## Moments -/

/-- What the events up to a moment have done to the entry of the key. -/
inductive Key.Meanwhile (key : Key) (new : List Event) : Option Entry → Option Entry → Prop
  | settled {before after : Option Entry} (h : key.Accounts new before after) :
      Meanwhile key new before after
  | opened {answer : Answer} {uses : Nat} (honce : key.opened new = 1) (huses : uses = key.asked new) :
      Meanwhile key new none (some ⟨answer, uses⟩)

omit [RegexLibrary] in
/-- Moments follow one another: a call that is open at the end was opened in one of the two parts. -/
theorem Key.Meanwhile.trans {key : Key} {xs ys : List Event} {a b c : Option Entry}
    (h : key.Meanwhile xs a b) (k : key.Meanwhile ys b c) : key.Meanwhile (xs ++ ys) a c := by
  cases h with
  | settled h =>
    cases k with
    | settled k => exact .settled (h.trans k)
    | opened honce huses =>
      cases h with
      | unasked hspared =>
        exact .opened (by rw [opened_append, hspared.opened, honce])
          (by rw [asked_append, hspared.asked, Nat.zero_add, huses])
  | opened honce huses =>
    cases k with
    | settled k =>
      cases k with
      | used _ honce' _ _ huses' =>
        exact .opened (by rw [opened_append, honce, honce']) (by rw [asked_append, huses', huses])
      | trying honce' _ _ huses' =>
        exact .opened (by rw [opened_append, honce, honce']) (by rw [asked_append, huses', huses])

/-- What has happened in the engine up to the moment accounts for all entries but those of open calls. -/
def Engine.Meanwhile (e m : Engine) : Prop :=
  e.Extends m ∧ ∃ new, m.events = e.events ++ new ∧
    ∀ key : Key, key.Meanwhile new (e.memo.find? key) (m.memo.find? key)

namespace Engine.Meanwhile

omit [RegexLibrary] in
/-- Nothing has happened yet. -/
theorem refl (e : Engine) : e.Meanwhile e :=
  ⟨.refl e, [], (List.append_nil _).symm, fun _ =>
    .settled (Key.Spared.accounts (fun _ hmem => absurd hmem List.not_mem_nil) _)⟩

omit [RegexLibrary] in
/-- What happens after a moment is added to what has happened up to it. -/
theorem trans {d e f : Engine} (h : d.Meanwhile e) (k : e.Meanwhile f) : d.Meanwhile f := by
  obtain ⟨hext, new, hevents, hkeys⟩ := h
  obtain ⟨kext, newer, kevents, kkeys⟩ := k
  refine ⟨hext.trans kext, new ++ newer, ?_, fun key => (hkeys key).trans (kkeys key)⟩
  rw [kevents, hevents, List.append_assoc]

omit [RegexLibrary] in
/-- When no call is open, the entries account for everything. -/
theorem of_accounts {e m : Engine} (h : e.Accounts m) : e.Meanwhile m := by
  obtain ⟨hext, new, hevents, hkeys⟩ := h
  exact ⟨hext, new, hevents, fun key => .settled (hkeys key)⟩

omit [RegexLibrary] in
/-- When a call has just been opened, its entry is the only one that does not. -/
theorem of_opened {key : Key} {new : List Event} {answer : Answer} {e m : Engine}
    (h : e.Opened key new answer m) : e.Meanwhile m := by
  refine ⟨h.extended, new, h.events, fun other => ?_⟩
  by_cases heq : key = other
  · subst heq
    rw [h.unknown, h.entry]
    exact .opened h.once rfl
  · exact .settled (h.others other heq)

end Engine.Meanwhile

/-- The engine has been asked for nothing yet. -/
def Engine.Blank (e : Engine) : Prop := e.events = [] ∧ ∀ key, e.memo.find? key = none

omit [RegexLibrary] in
/-- A fresh engine is blank. -/
theorem Engine.Blank.startingAt (text : Text) (p : Nat) : (Engine.startingAt text p).Blank :=
  ⟨rfl, fun _ => rfl⟩

/-- What a task starts it starts in its own engine, or in a blank one for a linked grammar. -/
theorem Starts.meanwhile {t t' : Task} (h : Starts t t') :
    t.engine.Meanwhile t'.engine ∨ t'.engine.Blank ∧ t'.engine.depth = t.engine.depth + 1 := by
  cases h with
  | first hfind => exact .inl (.of_opened (.opening hfind))
  | again hfind hgrown =>
    obtain ⟨new, hopened⟩ := hgrown.opened hfind
    exact .inl (.of_opened (hopened.regrowing _ _))
  | body _ => exact .inl (.of_accounts (.note _ _ rfl))
  | linked => exact .inr ⟨⟨Engine.events_crossing _ _ _ _, fun _ => rfl⟩, rfl⟩
  | ofSequence _ hran => exact .inl (.of_accounts hran.accounts)
  | ofChoice _ hran => exact .inl (.of_accounts hran.accounts)
  | ofRepetition _ hran => exact .inl (.of_accounts hran.accounts)
  | ofPart _ => exact .inl (.refl _)
  | ofApply _ => exact .inl (.refl _)
  | ofInvoke _ => exact .inl (.refl _)
  | ofCross _ => exact .inl (.refl _)

/-- Everything a task runs in its own engine finds there what has happened meanwhile. -/
theorem Task.Runs.meanwhile {t t' : Task} (h : t.Runs t') :
    t.engine.Meanwhile t'.engine ∨ t.engine.depth < t'.engine.depth := by
  induction h with
  | refl => exact .inl (.refl _)
  | tail _ hstarts ih =>
    rcases hstarts.meanwhile with hsame | ⟨-, hdepth⟩
    · rcases ih with ih | ih
      · exact .inl (ih.trans hsame)
      · exact .inr (by rw [hsame.1.2.1]; exact ih)
    · refine .inr ?_
      rcases ih with ih | ih
      · rw [hdepth, ih.1.2.1]
        exact Nat.lt_succ_self _
      · rw [hdepth]
        exact Nat.lt_succ_of_lt ih

/-- No task runs anything further up. -/
theorem Task.Runs.depth_le {t t' : Task} (h : t.Runs t') : t.engine.depth ≤ t'.engine.depth := by
  rcases h.meanwhile with hsame | hlt
  · exact Nat.le_of_eq hsame.1.2.1.symm
  · exact Nat.le_of_lt hlt

end MemoPeg
