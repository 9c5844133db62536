import RemoteSigning.CommandLine.Run
import RemoteSigning.Proofs.Lists

/-!
# Exit codes of outcomes

How a command ends is meant to depend on the kind of the last outcome only. But an error is worded
first, with what the relying party said in it, and then its wording is searched for words. A word in
what the relying party said counts like one of the program's own, so the exit code is the meant one
only if no such word stands there.
-/

namespace RemoteSigning

namespace Text

/-- What does not hold a character cannot lie across it. -/
theorem infix_append_cons {α : Type} {part before after : List α} {c : α} (h : c ∉ part) :
    part <:+: before ++ c :: after ↔ part <:+: before ∨ part <:+: after := by
  constructor
  · rintro ⟨front, back, hAll⟩
    rcases List.append_eq_append_iff.mp hAll with ⟨rest, hBefore, -⟩ | ⟨rest, hPart, hBack⟩
    · exact .inl ⟨front, rest, hBefore.symm⟩
    · -- The part ends behind the place of the character.
      cases rest with
      | nil =>
          rw [List.append_nil] at hPart
          exact .inl ⟨front, [], by rw [hPart, List.append_nil]⟩
      | cons d rest =>
          obtain ⟨rfl, rfl⟩ := List.cons.inj hBack
          rcases List.append_eq_append_iff.mp hPart with ⟨across, -, rfl⟩ | ⟨across, -, hRest⟩
          · exact absurd (List.mem_append_right across List.mem_cons_self) h
          · cases across with
            | nil =>
                rw [List.nil_append] at hRest
                exact absurd (hRest ▸ List.mem_cons_self) h
            | cons d' across =>
                obtain ⟨-, rfl⟩ := List.cons.inj hRest
                exact .inr ⟨across, back, rfl⟩
  · rintro (hBefore | hAfter)
    · exact hBefore.trans (List.prefix_append ..).isInfix
    · have hSuffix : after <:+ before ++ c :: after :=
        (List.suffix_cons c after).trans (List.suffix_append ..)
      exact hAfter.trans hSuffix.isInfix

end Text

namespace CommandLine

/-- Whether a word occurs in a text. -/
def Mentions (word text : String) : Prop := word.toList <:+: text.toList

instance (word text : String) : Decidable (Mentions word text) :=
  inferInstanceAs (Decidable (word.toList <:+: text.toList))

/-- A word that cannot lie across the marks by which a message is put together. -/
structure Unbroken (word : String) : Prop where
  colon : ':' ∉ word.toList
  opening : '(' ∉ word.toList
  closing : ')' ∉ word.toList
  blank : word.toList.head? ≠ some ' '

/-- A message with a detail behind a colon. -/
theorem Unbroken.mentions_detail {word : String} (h : Unbroken word) (before detail : String) :
    Mentions word (before ++ ": " ++ detail) ↔ Mentions word before ∨ Mentions word detail := by
  have hText : (before ++ ": " ++ detail).toList =
      before.toList ++ ':' :: ' ' :: detail.toList := by
    simp
  have hBlank : ¬word.toList <+: ' ' :: detail.toList ∨ word.toList = [] := by
    cases hWord : word.toList with
    | nil => exact .inr rfl
    | cons c rest =>
        refine .inl fun hPrefix => h.blank ?_
        rw [hWord, List.head?_cons, (List.cons_prefix_cons.mp hPrefix).1]
  rw [Mentions, hText, Text.infix_append_cons h.colon, List.infix_cons_iff]
  rcases hBlank with hNot | hEmpty
  · rw [or_iff_right hNot]
    rfl
  · simp [Mentions, hEmpty]

/-- A message about an error with a code of its own. -/
theorem Unbroken.mentions_code {word : String} (h : Unbroken word) (before code : String) :
    Mentions word (before ++ "(" ++ code ++ ")") ↔ Mentions word before ∨ Mentions word code := by
  have hText : (before ++ "(" ++ code ++ ")").toList =
      before.toList ++ '(' :: (code.toList ++ [')']) := by
    simp
  rw [Mentions, hText, Text.infix_append_cons h.opening, Text.infix_append_cons h.closing]
  have hNil : word.toList <:+: [] → word.toList <:+: code.toList := by
    intro hEmpty
    rw [List.infix_nil.mp hEmpty]
    exact List.nil_infix
  rw [or_iff_left_of_imp hNil]
  rfl

/-- Searching a text for a word tells whether the text mentions it. -/
theorem occurs_eq_decide (word text : String) :
    Text.occurs word.toList text.toList = decide (Mentions word text) := by
  rw [Bool.eq_iff_iff, Text.occurs_iff, decide_eq_true_iff]
  rfl

/-- The first of three words that a message mentions decides on its exit code. -/
theorem ofMessage_eq (message : String) :
    ExitCode.ofMessage message =
      if Mentions "rejected" message then .rejected
      else if Mentions "timed out" message then .timedOut
      else if Mentions "unavailable" message then .unavailable
      else .general := by
  rw [ExitCode.ofMessage]
  simp only [occurs_eq_decide, decide_eq_true_eq]

theorem unbroken_rejected : Unbroken "rejected" := by constructor <;> decide

theorem unbroken_timedOut : Unbroken "timed out" := by constructor <;> decide

theorem unbroken_unavailable : Unbroken "unavailable" := by constructor <;> decide

/-- What an exit code is meant to tell of an outcome. -/
inductive OutcomeKind where
  | unfinished
  | signed
  | rejected
  | timedOut
  | unreachable
  /-- An error with a code of the relying party's own. -/
  | failed
deriving DecidableEq

namespace OutcomeKind

/-- The exit code that is meant for a kind. -/
def number : OutcomeKind → Nat
  | .signed => 0
  | .rejected => 65
  | .timedOut => 75
  | .unreachable => 69
  | .unfinished | .failed => 1

/-- The program's own words in the message about an outcome. -/
def ownWords : OutcomeKind → String
  | .signed => ""
  | .rejected => "Challenge rejected by the signer"
  | .timedOut => "Challenge timed out"
  | .unreachable => "Relying party unavailable"
  | .failed => "Collect failed "
  | .unfinished => "Collection ended before the challenge was completed"

/-- The words of an outcome itself mention a refusal exactly if it is one; the same holds of the
other two words. -/
theorem mentions_rejected (k : OutcomeKind) : Mentions "rejected" k.ownWords ↔ k.number = 65 := by
  cases k <;> decide

theorem mentions_timedOut (k : OutcomeKind) : Mentions "timed out" k.ownWords ↔ k.number = 75 := by
  cases k <;> decide

theorem mentions_unavailable (k : OutcomeKind) :
    Mentions "unavailable" k.ownWords ↔ k.number = 69 := by
  cases k <;> decide

end OutcomeKind

/-- What an outcome amounts to. -/
def outcomeKind : Outcome → OutcomeKind
  | .pending | .viewed => .unfinished
  | .signed _ => .signed
  | .rejected => .rejected
  | .error code _ =>
    if code = Outcome.timeoutCode then .timedOut
    else if code = Outcome.transportCode then .unreachable
    else .failed

/-- The texts of an outcome that the message about it repeats. -/
def repeated : Outcome → List String
  | .error code message =>
    if code = Outcome.timeoutCode ∨ code = Outcome.transportCode then [message]
    else [code, message]
  | _ => []

/-- Whether the message about an outcome repeats a text in which a word occurs. -/
def Repeats (o : Outcome) (word : String) : Prop := ∃ text ∈ repeated o, Mentions word text

instance (o : Outcome) (word : String) : Decidable (Repeats o word) :=
  inferInstanceAs (Decidable (∃ text ∈ repeated o, Mentions word text))

/-- What the message about an error says before the colon. -/
def errorHead (code : String) : String :=
  if code = Outcome.timeoutCode then "Challenge timed out"
  else if code = Outcome.transportCode then "Relying party unavailable"
  else "Collect failed " ++ "(" ++ code ++ ")"

theorem outcomeProblem_error (code detail : String) :
    outcomeProblem? (.error code detail) = some (.other (errorHead code ++ ": " ++ detail)) := by
  rw [outcomeProblem?, errorHead]
  split_ifs
  · rfl
  · rfl
  · show some (Problem.other ("Collect failed " ++ "(" ++ code ++ (")" ++ ": ") ++ detail)) = _
    simp only [String.append_assoc]

/-- A word of a message is one of the program's own or one of those that it repeats. -/
theorem mentions_problem {word : String} (hWord : Unbroken word) {o : Outcome} {message : String}
    (hProblem : outcomeProblem? o = some (.other message)) :
    Mentions word message ↔ Mentions word (outcomeKind o).ownWords ∨ Repeats o word := by
  cases o with
  | signed a => cases hProblem
  | pending | viewed | rejected =>
      cases hProblem
      simp [outcomeKind, OutcomeKind.ownWords, Repeats, repeated]
  | error code detail =>
      rw [outcomeProblem_error, Option.some_inj, Problem.other.injEq] at hProblem
      rw [← hProblem, hWord.mentions_detail, errorHead, outcomeKind, Repeats, repeated]
      by_cases hTimeout : code = Outcome.timeoutCode
      · simp [hTimeout, OutcomeKind.ownWords]
      by_cases hTransport : code = Outcome.transportCode
      · simp [hTransport, OutcomeKind.ownWords, Outcome.timeoutCode, Outcome.transportCode]
      · rw [if_neg hTimeout, if_neg hTransport, hWord.mentions_code]
        simp [hTimeout, hTransport, OutcomeKind.ownWords, or_assoc]

/-- The numbers for the three words and for none of them. -/
theorem number_ofMessage (message : String) :
    (ExitCode.ofMessage message).number =
      if Mentions "rejected" message then 65
      else if Mentions "timed out" message then 75
      else if Mentions "unavailable" message then 69
      else 1 := by
  rw [ofMessage_eq]
  split_ifs <;> rfl

/-- Only a signed challenge ends a command without a message. -/
theorem outcomeProblem_cases (o : Outcome) :
    (∃ a, o = .signed a) ∨
      ∃ message, outcomeProblem? o = some (.other message) ∧ outcomeKind o ≠ .signed := by
  cases o with
  | signed a => exact .inl ⟨a, rfl⟩
  | pending | viewed | rejected => exact .inr ⟨_, rfl, by decide⟩
  | error code detail =>
      refine .inr ⟨_, rfl, ?_⟩
      rw [outcomeKind]
      split_ifs <;> decide

/-- Whatever is not signed has one of four numbers. -/
theorem OutcomeKind.number_of_ne_signed {k : OutcomeKind} (h : k ≠ .signed) :
    k.number = 1 ∨ k.number = 65 ∨ k.number = 69 ∨ k.number = 75 := by
  cases k with
  | signed => exact absurd rfl h
  | unfinished | rejected | timedOut | unreachable | failed => decide

/-- The exit code of an outcome. Whether a command ends with the code that is meant for the kind of
its outcome depends on what the relying party and the network said in it: a word that is repeated in
the message counts before the code that is meant. -/
theorem exitCode_of_repeated (json quiet : Bool) (output : List String) (o : Outcome)
    (log : RelyingParty.Log) :
    let number := (Completion.ofOutcome json quiet output o log).exitCode.number
    let kind := (outcomeKind o).number
    (number =
        if kind = 65 ∨ Repeats o "rejected" then 65
        else if kind = 75 ∨ Repeats o "timed out" then 75
        else if kind = 69 ∨ Repeats o "unavailable" then 69
        else kind) ∧
      (number = kind ↔
        (Repeats o "rejected" → kind = 65) ∧
        (Repeats o "timed out" → kind = 65 ∨ kind = 75) ∧
        (Repeats o "unavailable" → kind ≠ 1)) := by
  intro number kind
  obtain ⟨a, rfl⟩ | ⟨message, hProblem, hKind⟩ := outcomeProblem_cases o
  · have hNumber : number = 0 := rfl
    have hKind : kind = 0 := rfl
    simp [hNumber, hKind, Repeats, repeated]
  · have hNumber : number =
        if kind = 65 ∨ Repeats o "rejected" then 65
        else if kind = 75 ∨ Repeats o "timed out" then 75
        else if kind = 69 ∨ Repeats o "unavailable" then 69
        else 1 := by
      have hMessage : number = (ExitCode.ofMessage message).number := by
        show (Completion.ofOutcome json quiet output o log).exitCode.number = _
        rw [Completion.ofOutcome, hProblem]
        rfl
      rw [hMessage, number_ofMessage]
      simp only [mentions_problem unbroken_rejected hProblem,
        mentions_problem unbroken_timedOut hProblem,
        mentions_problem unbroken_unavailable hProblem, OutcomeKind.mentions_rejected,
        OutcomeKind.mentions_timedOut, OutcomeKind.mentions_unavailable]
      rfl
    have hRange : kind = 1 ∨ kind = 65 ∨ kind = 69 ∨ kind = 75 :=
      OutcomeKind.number_of_ne_signed hKind
    grind

/-- A relying party that cannot be reached looks like a signer who declined, if its address holds
the word. -/
example :
    let unreachable := Outcome.error Outcome.transportCode "no answer from http://rp.test/rejected"
    (outcomeKind unreachable).number = 69 ∧
      (Completion.ofOutcome false false [] unreachable {}).exitCode.number = 65 := by
  decide +kernel

end CommandLine

end RemoteSigning
