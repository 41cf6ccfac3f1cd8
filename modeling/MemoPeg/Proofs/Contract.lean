import MemoPeg.Proofs.Phrases
import MemoPeg.Regex.Reader

/-
  The contract of everything that runs inside a call.

  Offsets are counted in bytes and a text is made of characters.  A slice of the text between two offsets exists
  only if both are boundaries, and to ask for another one would be an error.  No run ever does.

  1. **Reached engines** — an engine on a boundary of a text, after any calls of rules of any rule sets.
  2. **Specification (`Task.Honours`)** — a match ends on a boundary, not before where it began and not
     past the text; the cursor stands at its end, or where it began after a failure and after a
     predicate; a call leaves its value as the result; a captured text is the part of the text that
     was read.
  3. **The crux (`Starts.inText`)** — what a task starts begins in the text if the task does.  So no
     reading ever cuts the text off a boundary, and by `Task.cause` no run stops for that.

  Of patterns it is assumed that a match is a part of the text, and thus ends on a boundary if it begins on
  one; this is what a library of regular expressions promises.  All other readings are looked at here.
-/

namespace MemoPeg

/-! ## Readings -/

/-- A text may be cut between a boundary and itself. -/
theorem Text.IsBoundary.slice_self {t : Text} {n : Nat} (h : t.IsBoundary n) : t.slice n n = some [] := by
  obtain ⟨s, r, rfl, hs⟩ := Text.isBoundary_iff.1 h
  exact Text.slice_eq_some_iff.2 ⟨s, r, by simp, hs, by simp [hs]⟩

/-- A text may be cut between any two boundaries in order. -/
theorem Text.IsBoundary.slice_isSome {t : Text} {start stop : Nat} (hstart : t.IsBoundary start)
    (hstop : t.IsBoundary stop) (hle : start ≤ stop) : (t.slice start stop).isSome := by
  obtain ⟨s, r, rfl, hs⟩ := Text.isBoundary_iff.1 hstart
  obtain ⟨s', r', ht, hs'⟩ := Text.isBoundary_iff.1 hstop
  rcases List.append_eq_append_iff.1 ht with ⟨u, rfl, rfl⟩ | ⟨u, rfl, rfl⟩
  · rw [Text.size_append] at hs'
    rw [Text.slice_eq_some_iff.2 ⟨s, r', (List.append_assoc _ _ _).symm, hs, hs'⟩]
    rfl
  · -- The part up to the later boundary is the shorter one only if they are one boundary.
    rw [Text.size_append] at hs
    obtain rfl : start = stop := by omega
    rw [hstart.slice_self]
    rfl

/-- A literal ends on a boundary, so what was read of it exists. -/
theorem Text.slice_literalEnd {t literal : Text} {n stop : Nat} (hn : t.IsBoundary n)
    (h : t.literalEnd n literal = some stop) : (t.slice n stop).isSome := by
  unfold Text.literalEnd at h
  split at h
  case isTrue =>
    split at h
    · cases h
      rw [hn.slice_self]
      rfl
    · cases h
  case isFalse =>
    split at h
    case h_2 => cases h
    case h_1 rest hrest =>
      split at h
      case isFalse => cases h
      case isTrue hprefix =>
        obtain ⟨s, rfl, hs⟩ := Text.suffixAt_eq_some_iff.1 hrest
        obtain ⟨r, rfl⟩ := List.isPrefixOf_iff_prefix.1 hprefix
        cases h
        rw [Text.slice_eq_some_iff.2 ⟨s, r, (List.append_assoc _ _ _).symm, hs, by rw [hs]⟩]
        rfl

namespace Engine

/-- A reading of a part of the text ends. -/
theorem readTo_ends {e : Engine} {stop? : Option Nat}
    (h : ∀ stop, stop? = some stop → (e.text.slice e.pos stop).isSome) :
    ∃ r, e.readTo stop? = .ok r := by
  cases stop? with
  | none => exact ⟨none, rfl⟩
  | some stop =>
    obtain ⟨read, hread⟩ := Option.isSome_iff_exists.1 (h stop rfl)
    exact ⟨some (read, { e with pos := stop }), by simp only [readTo, hread]⟩

/-- On a boundary, reading a literal never cuts into a character. -/
theorem InText.readLiteral {e : Engine} (h : e.InText) (literal : Text) :
    ∃ r, e.readLiteral literal = .ok r :=
  readTo_ends fun _ hstop => Text.slice_literalEnd h.cursor hstop

/-- Reading what an expression matches never cuts into a character. -/
theorem readPattern_ends (e : Engine) (m : Matcher) : ∃ r, e.readPattern m = .ok r :=
  readTo_ends fun _ hstop => Text.slice_patternEnd hstop

end Engine

/-- A reading that ends makes a step that ends. -/
theorem Step.terminal_ends {α : Type} (read : Engine → Run (Option (α × Engine)))
    (toValue : α → Value) {f : Frame} (h : ∃ r, read f.engine = .ok r) :
    ∃ r, Step.terminal read toValue f = .ok r := by
  obtain ⟨r, hr⟩ := h
  cases r with
  | none => exact ⟨_, by simp only [Step.terminal, hr]; rfl⟩
  | some r => exact ⟨_, by simp only [Step.terminal, hr]; rfl⟩

/-- In the text, a step without parts ends. -/
theorem Leaf.step_ends (l : Leaf) {f : Frame} (h : f.engine.InText) : ∃ r, l.step f = .ok r := by
  cases l with
  | any => exact Step.terminal_ends (fun e => .ok e.readChar) .char ⟨_, rfl⟩
  | literal s =>
    exact Step.terminal_ends (·.readLiteral s.toList) Step.textValue (h.readLiteral s.toList)
  | scan m =>
    exact Step.terminal_ends (·.readPattern m) Step.textValue (f.engine.readPattern_ends m)
  | range lo hi => exact Step.terminal_ends (fun e => .ok (e.readRange lo hi)) .char ⟨_, rfl⟩
  | test a wanted =>
    simp only [Leaf.step, Step.test]
    split <;> exact ⟨_, rfl⟩
  | action a => exact ⟨_, rfl⟩
  | fail => exact ⟨_, rfl⟩

section

variable [RegexLibrary]

/-! ## The invariant along tasks -/

/-- Runs of a phrase advance. -/
theorem Phrase.advances (x : Phrase) (n : Nat) : (x.step n).Advances := by
  cases x with
  | operator g op => exact (MemoPeg.advances.everywhere n).2.1 g op
  | code p c => exact (MemoPeg.advances.everywhere n).2.2 p c

/-- Runs of rule bodies advance. -/
theorem RuleSet.body_advances (n : Nat) (rs : RuleSet) (rule : RuleId) (args : List Value) :
    CallAdvances ((rs.runner n).body rule args) := (MemoPeg.advances.everywhere n).1 rs rule args

/-- The task begins in the text. -/
def Task.InText (text : Text) (t : Task) : Prop := t.engine.text = text ∧ t.engine.InText

omit [RegexLibrary] in
/-- A round of a growth begins in the text. -/
theorem Engine.InText.regrowing {e : Engine} (h : e.InText) {key : Key}
    (hkey : e.text.IsBoundary key.pos) (best : Nat) (value : Value) :
    (e.regrowing key best value).InText := ((h.move hkey).result value).note _

/-- Phrases that have run leave an engine in the text. -/
theorem Ran.inText {n : Nat} {matching : Bool} {parts : List Phrase} {f g : Frame}
    (h : Ran n matching parts f g) (hf : f.engine.InText) :
    g.engine.text = f.engine.text ∧ g.engine.InText := by
  induction h with
  | nil f => exact ⟨rfl, hf⟩
  | cons hx _ _ ih =>
    have had := Phrase.advances _ n _ _ _ hx hf
    obtain ⟨htext, hin⟩ := ih had.inText
    exact ⟨htext.trans had.text, hin⟩

/-- A rule that has grown has left an engine in the text. -/
theorem GrownTo.inText {n : Nat} {rs : RuleSet} {key : Key} {e e' : Engine} {best : Nat}
    {value : Value} (h : GrownTo (rs.runner n) key e best value e') (he : e.InText)
    (hkey : key.pos = e.pos) : e'.text = e.text ∧ e'.InText := by
  have hinvoke := CallAdvances.invoke (rs.body_advances n) key.rule key.args
  induction h with
  | @seed m stop value hfirst =>
    have had := hinvoke _ _ _ hfirst (he.opening key)
    have htext : m.text = e.text := had.text
    exact ⟨htext, had.settle hkey⟩
  | @longer e' m best stop value longer _ hround _ ih =>
    obtain ⟨htext, hin⟩ := ih
    have hcursor : e'.text.IsBoundary key.pos := by
      rw [htext, hkey]
      exact he.cursor
    have had := hinvoke _ _ _ hround (hin.regrowing hcursor best value)
    have htext' : m.text = e.text := had.text.trans htext
    exact ⟨htext', had.settle rfl⟩

/-- **What a task starts begins in the text**, if the task does. -/
theorem Starts.inText {text : Text} {t t' : Task} (h : Starts t t') (ht : t.InText text) :
    t'.InText text := by
  obtain ⟨htext, hin⟩ := ht
  cases h with
  | first _ => exact ⟨htext, hin.opening _⟩
  | again _ hgrown =>
    obtain ⟨hgrownText, hgrownIn⟩ := hgrown.inText hin rfl
    refine ⟨hgrownText.trans htext, hgrownIn.regrowing ?_ _ _⟩
    rw [hgrownText]
    exact hin.cursor
  | body _ => exact ⟨htext, hin.note _⟩
  | linked => exact ⟨htext, hin.cursor, Memo.allAnswers_empty⟩
  | ofSequence _ hran => exact ⟨(hran.inText hin).1.trans htext, (hran.inText hin).2⟩
  | ofChoice _ hran => exact ⟨(hran.inText hin).1.trans htext, (hran.inText hin).2⟩
  | ofRepetition _ hran => exact ⟨(hran.inText hin).1.trans htext, (hran.inText hin).2⟩
  | ofPart _ => exact ⟨htext, hin⟩
  | ofApply _ => exact ⟨htext, hin⟩
  | ofInvoke _ => exact ⟨htext, hin⟩
  | ofCross _ => exact ⟨htext, hin⟩

/-- Everything that a task runs begins in the text. -/
theorem Task.Runs.inText {text : Text} {t t' : Task} (h : t.Runs t') (ht : t.InText text) :
    t'.InText text := by
  induction h with
  | refl => exact ht
  | tail _ hstarts ih => exact hstarts.inText ih

/-! ## What a task leaves -/

namespace Task

/-- Where the task begins. -/
def pos (t : Task) : Nat := t.engine.pos

/-- The task is a predicate. -/
def isPredicate : Task → Bool
  | .phrase _ x _ =>
    match x.shape with
    | .ahead _ | .notAhead _ | .leaf (.test _ _) => true
    | _ => false
  | _ => false

/-- The task captures the text that it reads. -/
def isCapture : Task → Bool
  | .phrase _ x _ =>
    match x.shape with
    | .collect _ => true
    | _ => false
  | _ => false

/-- What a task has to keep to when it ends with an outcome in an engine. -/
structure Honours (text : Text) (t : Task) (o : Outcome) (e' : Engine) : Prop where
  failed : o = .failed → e'.pos = t.pos
  cursor : ∀ stop v, o = .matched stop v → e'.pos = stop
  boundary : ∀ stop v, o = .matched stop v → text.IsBoundary stop
  bounds : ∀ stop v, o = .matched stop v → t.pos ≤ stop ∧ stop ≤ text.size
  result : t.isCall → ∀ stop v, o = .matched stop v → e'.result = v
  predicate : t.isPredicate → ∀ stop v, o = .matched stop v → e'.pos = t.pos
  capture : t.isCapture → ∀ stop v, o = .matched stop v →
    ∃ read, text.slice t.pos stop = some read ∧ v = Step.textValue read

/-- The run of a task that begins in the text advances. -/
theorem advances {text : Text} {t : Task} (ht : t.InText text) {o : Outcome} {e' : Engine}
    (h : t.run = .ok (o, e')) : t.engine.Advanced o e' := by
  cases t with
  | apply n rs rule args e => exact CallAdvances.apply (rs.body_advances n) n rule args e o e' h ht.2
  | invoke n rs rule args e => exact CallAdvances.invoke (rs.body_advances n) rule args e o e' h ht.2
  | cross n grammar rs rule args e =>
    exact CallAdvances.callForeign (rs.body_advances n) n grammar rule args e o e' h ht.2
  | phrase n x f =>
    obtain ⟨m, hm, rfl⟩ := Step.inScope_eq_ok h
    exact x.advances n f o m hm ht.2

end Task

namespace Engine

variable {r : Runner} {e e' : Engine} {rule : RuleId} {args : List Value} {stop : Nat} {v : Value}

omit [RegexLibrary] in
/-- An invocation leaves its value as the result. -/
theorem invoke_result (h : e.invoke r rule args = .ok (.matched stop v, e')) : e'.result = v := by
  obtain ⟨m, -, rfl⟩ := invoke_eq_ok h
  rfl

omit [RegexLibrary] in
/-- So does a growth, whether it ends with its last round or with an earlier one. -/
theorem grow_result {key : Key} : ∀ {fuel : Nat} {e : Engine},
    e.grow r key fuel = .ok (.matched stop v, e') → e'.result = v := by
  intro fuel
  induction fuel with
  | zero => intro e h; cases h
  | succ fuel ih =>
    intro e h
    rcases grow_succ_eq_ok h with ⟨-, heq, -⟩ | ⟨best, uses, round, m, -, -, hgrown⟩
    · cases heq
    · rcases hgrown with ⟨_, _, -, -, hrest⟩ | ⟨-, heq⟩
      · exact ih hrest
      · rcases m.grown_cases key with ⟨entry, -, hgrown⟩ | ⟨-, hgrown⟩ <;> rw [hgrown] at heq <;>
          cases heq
        rfl

omit [RegexLibrary] in
/-- So does a call, also if it is answered from an entry. -/
theorem apply_result {fuel : Nat} (h : e.apply r fuel rule args = .ok (.matched stop v, e')) :
    e'.result = v := by
  rcases apply_eq_ok h with ⟨⟨⟨status, stop', v'⟩, uses⟩, -, heq⟩ | ⟨-, first, m, hm, hrest⟩
  · cases status with
    | matched => cases heq; rfl
    | inProgress detected => cases heq
    | failed => cases heq
  · rcases hrest with ⟨_, _, -, -, hgrown⟩ | ⟨_, _, -, -, rfl, rfl⟩ | ⟨-, heq, -⟩
    · exact grow_result hgrown
    · exact (invoke_result hm : m.result = v)
    · cases heq

omit [RegexLibrary] in
/-- A call to a linked rule set hands its value on to the engine of the caller. -/
theorem callForeign_result {fuel : Nat} {grammar : String}
    (h : e.callForeign r fuel grammar rule args = .ok (.matched stop v, e')) : e'.result = v := by
  obtain ⟨inner, -, rfl⟩ := callForeign_eq_ok h
  rfl

end Engine

namespace Task

variable {t : Task} {e' : Engine} {stop : Nat} {v : Value}

/-- A call leaves the value of its match as the result. -/
theorem call_result (hcall : t.isCall) (h : t.run = .ok (.matched stop v, e')) : e'.result = v := by
  cases t with
  | apply n rs rule args e => exact Engine.apply_result h
  | invoke n rs rule args e => exact Engine.invoke_result h
  | cross n grammar rs rule args e => exact Engine.callForeign_result h
  | phrase n x f => cases hcall

/-- A predicate matches where it begins. -/
theorem predicate_stop (hpredicate : t.isPredicate) (h : t.run = .ok (.matched stop v, e')) :
    stop = t.pos := by
  cases t with
  | apply _ _ _ _ _ => cases hpredicate
  | invoke _ _ _ _ _ => cases hpredicate
  | cross _ _ _ _ _ _ => cases hpredicate
  | phrase n x f =>
    obtain ⟨m, hm, -⟩ := Step.inScope_eq_ok h
    cases n with
    | zero => cases x <;> cases hm
    | succ n =>
      rw [Phrase.step_succ] at hm
      simp only [isPredicate] at hpredicate
      split at hpredicate
      case h_1 part hx =>
        rw [hx] at hm
        obtain ⟨_, _, -, -, ⟨_, _, -, heq⟩ | ⟨-, heq⟩⟩ := Step.ahead_eq_ok hm <;> cases heq
        rfl
      case h_2 part hx =>
        rw [hx] at hm
        obtain ⟨_, _, -, -, ⟨_, _, -, heq⟩ | ⟨-, heq⟩⟩ := Step.notAhead_eq_ok hm <;> cases heq
        rfl
      case h_3 a wanted hx =>
        rw [hx] at hm
        obtain ⟨-, ⟨-, heq⟩ | ⟨-, heq⟩⟩ := Step.test_eq_ok hm <;> cases heq
        rfl
      case h_4 => cases hpredicate

/-- A captured text is what stands between the ends of the match, whenever anything does. -/
theorem capture_value (hcapture : t.isCapture) (h : t.run = .ok (.matched stop v, e')) :
    v = Step.textValue (t.engine.textBetween t.pos stop) := by
  cases t with
  | apply _ _ _ _ _ => cases hcapture
  | invoke _ _ _ _ _ => cases hcapture
  | cross _ _ _ _ _ _ => cases hcapture
  | phrase n x f =>
    obtain ⟨m, hm, -⟩ := Step.inScope_eq_ok h
    cases n with
    | zero => cases x <;> cases hm
    | succ n =>
      rw [Phrase.step_succ] at hm
      simp only [isCapture] at hcapture
      split at hcapture
      case h_1 part hx =>
        rw [hx, Shape.step, Step.collect] at hm
        rcases Step.binding_eq_ok hm with ⟨_, _, _, -, heq, -⟩ | ⟨-, heq⟩
        · cases heq
          rfl
        · cases heq
      case h_2 => cases hcapture

/-- A task that begins in the text honours the contract. -/
theorem InText.honours {text : Text} (ht : t.InText text) {o : Outcome}
    (h : t.run = .ok (o, e')) : t.Honours text o e' := by
  obtain ⟨htext, hpos, hle, hin⟩ := advances ht h
  rw [ht.1] at htext
  have hboundary : text.IsBoundary (o.cursor t.pos) := by
    have hcursor := hin.cursor
    rw [htext, hpos] at hcursor
    exact hcursor
  refine ⟨?_, ?_, ?_, ?_, ?_, ?_, ?_⟩
  · rintro rfl; exact hpos
  · rintro stop v rfl; exact hpos
  · rintro stop v rfl; exact hboundary
  · rintro stop v rfl; exact ⟨hle, hboundary.le_size⟩
  · rintro hcall stop v rfl; exact call_result hcall h
  · rintro hpredicate stop v rfl; exact hpos.trans (predicate_stop hpredicate h)
  · rintro hcapture stop v rfl
    -- Both ends are boundaries in order, so that there is a text between them.
    have hstart : text.IsBoundary t.pos := ht.1 ▸ ht.2.cursor
    have hread : (text.slice t.pos stop).isSome := hstart.slice_isSome hboundary hle
    obtain ⟨read, hread⟩ := Option.isSome_iff_exists.1 hread
    refine ⟨read, hread, (capture_value hcapture h).trans ?_⟩
    rw [Engine.textBetween, ht.1, hread]
    rfl

end Task

/-! ## Reached engines -/

/-- The engine was made on a boundary of the text, and has then called rules of any rule sets. -/
inductive Engine.Reached (text : Text) : Engine → Prop
  | start {p : Nat} (h : text.IsBoundary p) : Reached text (Engine.startingAt text p)
  | called {t : Task} {o : Outcome} {e' : Engine} (h : Reached text t.engine) (hcall : t.isCall)
      (hrun : t.run = .ok (o, e')) : Reached text e'

/-- An engine that was reached is in its text. -/
theorem Engine.Reached.inText {text : Text} {e : Engine} (h : e.Reached text) :
    e.text = text ∧ e.InText := by
  induction h with
  | start hp => exact ⟨rfl, .startingAt hp⟩
  | called _ _ hrun ih =>
    have had := Task.advances ih hrun
    exact ⟨had.text.trans ih.1, had.inText⟩

/-- A task that begins in the text does not stop inside a character. -/
theorem Task.InText.not_insideCharacter {text : Text} {t : Task} (ht : t.InText text) :
    t.run ≠ .error .insideCharacter := by
  intro h
  obtain ⟨n, x, l, f, hruns, -, hstopped⟩ := Task.cause (by decide) h
  obtain ⟨r, hr⟩ := l.step_ends (hruns.inText ht).2
  rw [hr] at hstopped
  cases hstopped

/-- **The contract of the cursor.**  Let an engine be reached on a text, let it be given any call of a
    rule or any operator or code, and take that or anything that runs inside it.  There, no literal
    and no expression would be read off the boundaries of the text, and none is; and with whatever
    outcome it ends, it honours the contract. -/
theorem cursor_contract {text : Text} {t t' : Task} (hreached : t.engine.Reached text)
    (hruns : t.Runs t') :
    (∀ literal, ∃ r, t'.engine.readLiteral literal = .ok r) ∧
    (∀ m, ∃ r, t'.engine.readPattern m = .ok r) ∧
    t'.run ≠ .error .insideCharacter ∧
    ∀ o e', t'.run = .ok (o, e') → t'.Honours text o e' := by
  have ht : t'.InText text := hruns.inText hreached.inText
  exact ⟨ht.2.readLiteral, t'.engine.readPattern_ends, ht.not_insideCharacter,
    fun o e' h => ht.honours h⟩

end

/-- A letter of two bytes, and the character after it as a text. -/
def accentedBody : Operator := .sequence [.literal "é", .collect .any]

/-- A grammar of one rule that matches the two. -/
def accented : Grammar := .ofRules "accented" [⟨"pair", [], accentedBody⟩] 0 [] []

/-- The call of the only rule of that grammar behind the first character of a text. -/
def accentedPair : Task := .apply 9 (.grammar accented) 0 [] (Engine.startingAt "xéñ".toList 1)

/-- The engine with the entry that the call makes. -/
def accentedOpened : Engine := (Engine.startingAt "xéñ".toList 1).opening ⟨0, 1, []⟩

/-- The frame in which the rule is tried. -/
def accentedFrame : Frame :=
  ⟨accentedOpened.attempting ((RuleSet.grammar accented).runner 9) 0, []⟩

/-- The capture inside that call starts behind the letter, and takes the two bytes up to the end. -/
theorem cursor_contract_accentedPair :
    ∃ f e', accentedPair.Runs (.phrase 7 (.operator accented (.collect .any)) f) ∧
      (Task.phrase 7 (.operator accented (.collect .any)) f).run =
        .ok (.matched 5 (.str "ñ"), e') ∧ f.engine.pos = 3 ∧ e'.pos = 5 ∧
      ∃ read, Text.slice "xéñ".toList 3 5 = some read ∧ Value.str "ñ" = Step.textValue read := by
  have hends : ((accented.eval 7 (.literal "é") accentedFrame >>= fun r =>
      (Task.phrase 7 (.operator accented (.collect .any)) r.2).run.map fun r' =>
        (r.1, r.2.engine.pos, r'.1)).toOption) =
      some (.matched 3 (.str "é"), 3, .matched 5 (.str "ñ")) := by decide +kernel
  cases hletter : accented.eval 7 (.literal "é") accentedFrame with
  | error stop => rw [hletter] at hends; cases hends
  | ok r =>
    obtain ⟨o, f⟩ := r
    rw [hletter] at hends
    cases hcapture : (Task.phrase 7 (.operator accented (.collect .any)) f).run with
    | error stop => simp only [bind, Except.bind, hcapture] at hends; cases hends
    | ok r' =>
      obtain ⟨o', e'⟩ := r'
      simp only [bind, Except.bind, hcapture] at hends
      obtain ⟨rfl, hrest⟩ := Prod.mk.inj (Option.some.inj hends)
      obtain ⟨hpos, rfl⟩ := Prod.mk.inj hrest
      -- The capture is run in the row of the body, behind the literal.
      have hopened : Starts accentedPair (.invoke 9 (.grammar accented) 0 [] accentedOpened) :=
        .first rfl
      have hbody : Starts (.invoke 9 (.grammar accented) 0 [] accentedOpened)
          (.phrase 8 (.operator accented accentedBody) accentedFrame) :=
        @Starts.body _ 8 (.grammar accented) 0 [] accentedOpened [] _ rfl
      have hpart : Starts (.phrase 8 (.operator accented accentedBody) accentedFrame)
          (.phrase 7 (.operator accented (.collect .any)) f) :=
        @Starts.ofSequence _ 7 _ _ [.operator accented (.literal "é")] [] _ _ rfl
          (.cons hletter rfl (.nil f))
      have hruns : accentedPair.Runs (.phrase 7 (.operator accented (.collect .any)) f) :=
        ((Relation.ReflTransGen.single hopened).tail hbody).tail hpart
      obtain ⟨-, -, -, hhonours⟩ := cursor_contract (.start (by decide)) hruns
      have hcontract := hhonours _ _ hcapture
      refine ⟨f, e', hruns, hcapture, hpos, hcontract.cursor 5 (.str "ñ") rfl, ?_⟩
      obtain ⟨read, hread, hvalue⟩ := hcontract.capture rfl 5 (.str "ñ") rfl
      refine ⟨read, ?_, hvalue⟩
      rw [show (Task.phrase 7 (.operator accented (.collect .any)) f).pos = 3 from hpos] at hread
      exact hread

end MemoPeg
