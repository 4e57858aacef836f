/-
  The subjects of the NATS transport: `{prefix}.{message type}` for messages and
  `{prefix}._error.{endpoint}` for error copies.

  The server compares subjects token by token (`subjectMatches`); `messageType_language` says a message
  type adds its levels as tokens, none of them a wildcard. `subjectsApart_iff` says when
  the two kinds of subjects keep apart: unless a message type is itself `_error.` and the name of
  an endpoint, which the grammar of message types allows for the endpoints `v0`, `v1` and so on
  (`exists_errorType_iff`).
-/
import SisaMessaging.Core.Message

namespace SisaMessaging.Nats

open SisaMessaging.Core

/-! ## Subjects -/

/-- `NatsTransport::subject`. -/
def subject (subjectPrefix : String) (messageType : MessageType) : String :=
  subjectPrefix ++ "." ++ messageType.value

/-- `NatsTransport::error_subject`. -/
def errorSubject (subjectPrefix endpoint : String) : String :=
  subjectPrefix ++ "._error." ++ endpoint

/-- A name JetStream accepts for a durable consumer. -/
def IsDurableName (name : String) : Prop :=
  name ≠ "" ∧ ∀ c ∈ name.toList, c ≠ '.' ∧ c ≠ ' ' ∧ c ≠ '*' ∧ c ≠ '>'

instance (name : String) : Decidable (IsDurableName name) :=
  inferInstanceAs (Decidable (_ ∧ _))

/-- The levels of a subject. -/
def tokens (subject : String) : List (List Char) := subject.toList.splitOn '.'

/-- `*` stands for any one token, a last `>` for one or more. -/
def tokensMatch : List (List Char) → List (List Char) → Bool
  | [], [] => true
  | filter :: filters, token :: tokens =>
    (filter = ['>'] && filters.isEmpty) || ((filter = ['*'] || filter = token) && tokensMatch filters tokens)
  | _, _ => false

/-- Whether the server takes `subject` for the filter. -/
def subjectMatches (filter subject : String) : Bool := tokensMatch (tokens filter) (tokens subject)

/-- Whether a consumer with these filter subjects gets a message on `subject`. -/
def filterMatches (filterSubjects : List String) (subject : String) : Bool :=
  filterSubjects.any (subjectMatches · subject)

/-! ## Tokens -/

theorem tokens_subject (subjectPrefix : String) (messageType : MessageType) :
    tokens (subject subjectPrefix messageType) =
      tokens subjectPrefix ++ tokens messageType.value := by
  have hdot : ".".toList = ['.'] := rfl
  unfold tokens subject
  rw [String.toList_append, String.toList_append, hdot, List.append_assoc, List.singleton_append,
    List.splitOn_append_cons_self]

theorem errorSubject_eq (subjectPrefix endpoint : String) :
    errorSubject subjectPrefix endpoint = subjectPrefix ++ "." ++ ("_error." ++ endpoint) := by
  have herror : "._error." = "." ++ "_error." := rfl
  unfold errorSubject
  rw [herror, String.append_assoc, String.append_assoc, String.append_assoc]

theorem tokens_errorSubject (subjectPrefix endpoint : String) :
    tokens (errorSubject subjectPrefix endpoint) =
      tokens subjectPrefix ++ tokens ("_error." ++ endpoint) := by
  have hdot : ".".toList = ['.'] := rfl
  rw [errorSubject_eq]
  unfold tokens
  rw [String.toList_append, String.toList_append, hdot, List.append_assoc, List.singleton_append,
    List.splitOn_append_cons_self]

theorem tokens_injective {s t : String} (h : tokens s = tokens t) : s = t := by
  have := congrArg (['.'].intercalate ·) h
  unfold tokens at this
  simp only [List.intercalate_splitOn] at this
  exact String.toList_inj.mp this

/-- Common leading tokens match themselves, whatever they are. -/
theorem tokensMatch_append (common : List (List Char)) {filters tokens : List (List Char)}
    (h : filters ≠ []) : tokensMatch (common ++ filters) (common ++ tokens) = tokensMatch filters tokens := by
  induction common with
  | nil => rfl
  | cons token common ih =>
    have hne : (common ++ filters).isEmpty = false := by
      cases common <;> cases filters <;> simp_all
    simp [tokensMatch, hne, ih]

/-- Without wildcards, only the same tokens match. -/
theorem tokensMatch_literal {filters tokens : List (List Char)}
    (h : ∀ token ∈ filters, token ≠ ['*'] ∧ token ≠ ['>']) :
    tokensMatch filters tokens ↔ filters = tokens := by
  induction filters generalizing tokens with
  | nil => cases tokens <;> simp [tokensMatch]
  | cons filter filters ih =>
    obtain ⟨⟨hstar, hfull⟩, hrest⟩ := List.forall_mem_cons.mp h
    cases tokens with
    | nil => simp [tokensMatch]
    | cons token tokens => simp [tokensMatch, hstar, hfull, ih hrest]

/-- A message type has no wildcard token. -/
theorem tokens_messageType (messageType : MessageType) :
    ∀ token ∈ tokens messageType.value, token ≠ ['*'] ∧ token ≠ ['>'] := by
  have hchars := (checkMessageType_eq_ok.mp messageType.valid).allowed
  have hstar : ¬ IsLevelChar '*' := by simp [IsLevelChar]
  have hfull : ¬ IsLevelChar '>' := by simp [IsLevelChar]
  intro token ht
  constructor
  · rintro rfl
    exact hstar (hchars _ ht '*' (List.mem_singleton.mpr rfl))
  · rintro rfl
    exact hfull (hchars _ ht '>' (List.mem_singleton.mpr rfl))

theorem levelChar_literal {c : Char} (h : IsLevelChar c) :
    c ≠ '*' ∧ c ≠ '>' ∧ isWhitespace c = false := by
  have hc := isLevelChar_iff.mp h
  have hstar : '*'.toNat = 42 := rfl
  have hfull : '>'.toNat = 62 := rfl
  refine ⟨?_, ?_, ?_⟩
  · rintro rfl
    omega
  · rintro rfl
    omega
  · simp only [isWhitespace, Bool.or_eq_false_iff, Bool.and_eq_false_iff, decide_eq_false_iff_not,
      beq_eq_false_iff_ne]
    omega

/-- A dot of a message type has something on both sides. -/
theorem dot_inside (messageType : MessageType) {before after : List Char}
    (h : messageType.value.toList = before ++ '.' :: after) : before ≠ [] ∧ after ≠ [] := by
  have hnonempty := (checkMessageType_eq_ok.mp messageType.valid).nonempty
  rw [h, List.splitOn_append_cons_self] at hnonempty
  constructor
  · rintro rfl
    exact hnonempty [] (List.mem_append_left _ (by rw [List.splitOn_nil]; exact List.mem_cons_self)) rfl
  · rintro rfl
    exact hnonempty [] (List.mem_append_right _ (by rw [List.splitOn_nil]; exact List.mem_cons_self))
      rfl

/-- The check accepts its grammar and keeps the value. A message type has no wildcard, whitespace,
    empty token or dot at an end, and its subject adds its levels to the prefix. -/
theorem messageType_language :
    (∀ value, (∃ messageType, MessageType.new value = .ok messageType) ↔
      (textBytes value).length ≤ 249 ∧ ∃ levels, IsLevels value.toList levels) ∧
    (∀ value messageType, MessageType.new value = .ok messageType → messageType.value = value) ∧
    ∀ messageType : MessageType,
      (∀ c ∈ messageType.value.toList, c ≠ '*' ∧ c ≠ '>' ∧ isWhitespace c = false) ∧
      (∀ token ∈ tokens messageType.value, token ≠ []) ∧
      messageType.value.toList.head? ≠ some '.' ∧ messageType.value.toList.getLast? ≠ some '.' ∧
      ∃ levels, IsLevels messageType.value.toList levels ∧ ∀ subjectPrefix,
        tokens (subject subjectPrefix messageType) = tokens subjectPrefix ++ levels := by
  refine ⟨fun value => MessageType.exists_new_iff, fun value _ => MessageType.new_eq_ok,
    fun messageType => ?_⟩
  have hvalid := checkMessageType_eq_ok.mp messageType.valid
  obtain ⟨-, levels, hlevels⟩ := isMessageType_iff.mp hvalid
  refine ⟨?_, hvalid.nonempty, ?_, ?_, levels, hlevels, fun subjectPrefix => ?_⟩
  · intro c hc
    by_cases hdot : c = '.'
    · subst hdot
      decide
    · exact levelChar_literal (forall_splitOn_iff.mp hvalid.allowed c hc hdot)
  · intro hhead
    obtain ⟨after, hafter⟩ := List.head?_eq_some_iff.mp hhead
    rw [← List.nil_append ('.' :: after)] at hafter
    exact (dot_inside messageType hafter).1 rfl
  · intro hlast
    obtain ⟨before, hbefore⟩ := List.getLast?_eq_some_iff.mp hlast
    exact (dot_inside messageType hbefore).2 rfl
  · rw [tokens_subject]
    exact congrArg _ hlevels.splitOn_eq

/-! ## Messages and error copies -/

theorem subject_injective {subjectPrefix : String} {t u : MessageType}
    (h : subject subjectPrefix t = subject subjectPrefix u) : t = u := by
  unfold subject at h
  exact MessageType.ext (String.append_right_inj _ |>.mp h)

theorem subject_eq_errorSubject_iff {subjectPrefix endpoint : String} {t : MessageType} :
    subject subjectPrefix t = errorSubject subjectPrefix endpoint ↔ t.value = "_error." ++ endpoint := by
  rw [errorSubject_eq]
  unfold subject
  exact String.append_right_inj _

theorem subjectMatches_errorSubject_iff {subjectPrefix endpoint : String} {t : MessageType} :
    subjectMatches (subject subjectPrefix t) (errorSubject subjectPrefix endpoint) ↔
      t.value = "_error." ++ endpoint := by
  unfold subjectMatches
  have hne : tokens t.value ≠ [] := List.splitOn_ne_nil _ _
  rw [tokens_subject, tokens_errorSubject, tokensMatch_append _ hne,
    tokensMatch_literal (tokens_messageType t)]
  exact ⟨tokens_injective, congrArg tokens⟩

/-- The endpoints that have a message type whose subject is their error subject. -/
theorem exists_errorType_iff {endpoint : String} (h : IsDurableName endpoint) :
    (∃ t : MessageType, t.value = "_error." ++ endpoint) ↔
      IsVersion endpoint.toList ∧ endpoint.length ≤ 242 := by
  have hdot : '.' ∉ endpoint.toList := fun hd => (h.2 '.' hd).1 rfl
  have hlevels : ("_error." ++ endpoint).toList.splitOn '.' = ["_error".toList, endpoint.toList] := by
    have herror : "_error.".toList = "_error".toList ++ ['.'] := rfl
    rw [String.toList_append, herror, List.append_assoc, List.singleton_append,
      List.splitOn_append_cons_self, List.splitOn_eq_singleton hdot]
    rfl
  have hlength : ("_error." ++ endpoint).length = 7 + endpoint.length := String.length_append _ _
  constructor
  · rintro ⟨t, ht⟩
    have hvalid := checkMessageType_eq_ok.mp t.valid
    rw [ht] at hvalid
    obtain ⟨level, hl, hv⟩ := hvalid.version
    rw [hlevels] at hl
    cases hl
    have := hvalid.short
    exact ⟨hv, by omega⟩
  · rintro ⟨hv, hshort⟩
    have herror : ∀ c ∈ "_error".toList, IsLevelChar c := by
      simp [IsLevelChar]
    have hendpoint : ∀ c ∈ endpoint.toList, IsLevelChar c := by
      obtain ⟨digits, hd, -, hdigits⟩ := hv
      rw [hd]
      exact List.forall_mem_cons.mpr ⟨Or.inl rfl, fun c hc => Or.inr (Or.inl (hdigits c hc))⟩
    refine ⟨⟨"_error." ++ endpoint, checkMessageType_eq_ok.mpr ⟨by omega, ?_, ?_, ?_, ?_⟩⟩, rfl⟩
    · rw [hlevels]
      exact le_refl 2
    · rw [hlevels, List.forall_mem_cons, List.forall_mem_singleton]
      exact ⟨by decide, fun hnil => h.1 (String.toList_eq_nil_iff.mp hnil)⟩
    · rw [hlevels, List.forall_mem_cons, List.forall_mem_singleton]
      exact ⟨herror, hendpoint⟩
    · rw [hlevels]
      exact ⟨endpoint.toList, rfl, hv⟩

/-- For consumers filtered on `types` and error copies of `endpoint`: distinct message types have
    distinct subjects, none is the error subject, and no filter takes an error copy. -/
def SubjectsApart (subjectPrefix : String) (types : List MessageType) (endpoint : String) : Prop :=
  (∀ t ∈ types, ∀ u ∈ types, t ≠ u → subject subjectPrefix t ≠ subject subjectPrefix u) ∧
    (∀ t ∈ types, subject subjectPrefix t ≠ errorSubject subjectPrefix endpoint) ∧
      filterMatches (types.map (subject subjectPrefix)) (errorSubject subjectPrefix endpoint) = false

/-- They keep apart unless some message type is `_error.` and the endpoint's name. -/
theorem subjectsApart_iff (subjectPrefix : String) (types : List MessageType) (endpoint : String) :
    SubjectsApart subjectPrefix types endpoint ↔ ∀ t ∈ types, t.value ≠ "_error." ++ endpoint := by
  unfold SubjectsApart filterMatches
  simp only [ne_eq, subject_eq_errorSubject_iff, List.any_map, List.any_eq_false,
    Function.comp_apply, subjectMatches_errorSubject_iff, and_self, and_iff_right_iff_imp]
  exact fun _ t _ u _ hne heq => hne (subject_injective heq)

/-- A valid message type and an endpoint whose error subject it is. -/
theorem not_subjectsApart_error_v1 :
    IsDurableName "v1" ∧ ¬ SubjectsApart "sisa" [⟨"_error.v1", by decide⟩] "v1" := by
  refine ⟨by simp [IsDurableName], fun h => ?_⟩
  exact h.2.1 _ (List.mem_singleton.mpr rfl) (by decide)

end SisaMessaging.Nats
