import FontCodec.CommandLine.Request

/-!
# Reading settings and commands

Options with values in front of a command set one thing after the other, and the command is then read from
the arguments behind its name.
-/

namespace FontCodec.CommandLine

def Setting.spelling : Setting → String
  | .textVersion => "-t"
  | .config => "--config"
  | .logLevel => "--log-level"

def settingArguments (options : List (Setting × String)) : List String :=
  options.flatMap fun option => [option.1.spelling, option.2]

/-- The settings behind some options. A value that could be an option itself is none. -/
def Settings.setAll? (settings : Settings) : List (Setting × String) → Option Settings
  | [] => some settings
  | (s, value) :: rest =>
    if roleOf mainOptions value = some .operand then
      (settings.set s value).bind fun settings => settings.setAll? rest
    else none

section Classifying

variable {α : Type} {options : Options α}

theorem classify_nil : classify options [] = some [] := rfl

theorem classify_cons_of_role {text : String} {role : Role α} (h : roleOf options text = some role)
    (hne : text ≠ "--") (rest : List String) :
    classify options (text :: rest) = (classify options rest).map (⟨text, role⟩ :: ·) := by
  rw [classify, if_neg hne, h]
  cases classify options rest <;> rfl

theorem ne_separator_of_head?_ne {text : String} (h : text.toList.head? ≠ some '-') : text ≠ "--" := by
  rintro rfl
  exact h (by decide)

/-- An argument that does not begin with a dash is an operand of any command. -/
theorem classify_cons_of_head?_ne {text : String} (h : text.toList.head? ≠ some '-')
    (rest : List String) :
    classify options (text :: rest) = (classify options rest).map (⟨text, .operand⟩ :: ·) :=
  classify_cons_of_role (roleOf_of_head?_ne h) (ne_separator_of_head?_ne h) rest

theorem map_text_of_classify {texts : List String} {arguments : List (Argument α)}
    (h : classify options texts = some arguments) : arguments.map Argument.text = texts := by
  induction texts generalizing arguments with
  | nil =>
    obtain rfl := Option.some.inj h
    rfl
  | cons text rest ih =>
    rw [classify] at h
    split at h
    · obtain rfl := Option.some.inj h
      simp [Function.comp_def]
    · cases hrole : roleOf options text with
      | none => simp [hrole] at h
      | some role =>
        cases hrest : classify options rest with
        | none => simp [hrole, hrest] at h
        | some others =>
          obtain rfl : _ = arguments := by simpa [hrole, hrest] using h
          simp [ih hrest]

end Classifying

theorem classify_spelling_cons (s : Setting) (rest : List String) :
    classify mainOptions (s.spelling :: rest) =
      (classify mainOptions rest).map (⟨s.spelling, .known (.setting s) none⟩ :: ·) :=
  classify_cons_of_role (by cases s <;> decide +kernel) (by cases s <;> decide) rest

/-- An option takes the next argument as its value, if that is an operand. -/
theorem readMain_setting (settings : Settings) (s : Setting) (value : String) (rest : List String) :
    (classify mainOptions (s.spelling :: value :: rest)).elim .misuse (readMain settings false) =
      if roleOf mainOptions value = some .operand then
        (settings.set s value).elim .misuse fun settings =>
          (classify mainOptions rest).elim .misuse (readMain settings false)
      else .misuse := by
  rw [classify_spelling_cons]
  by_cases hvalue : roleOf mainOptions value = some .operand
  · have hne : value ≠ "--" := by
      rintro rfl
      exact absurd hvalue (by decide +kernel)
    rw [if_pos hvalue, classify_cons_of_role hvalue hne]
    cases classify mainOptions rest <;> cases hset : settings.set s value <;> simp [readMain, hset]
  · rw [if_neg hvalue, classify]
    split
    · simp [readMain]
    · cases hrole : roleOf mainOptions value with
      | none => rfl
      | some role =>
        cases classify mainOptions rest with
        | none => rfl
        | some arguments =>
          cases role with
          | operand => exact absurd hrole hvalue
          | _ => simp [readMain]

theorem readMain_settingArguments (settings : Settings) (options : List (Setting × String))
    (rest : List String) :
    (classify mainOptions (settingArguments options ++ rest)).elim .misuse (readMain settings false) =
      (settings.setAll? options).elim .misuse fun settings =>
        (classify mainOptions rest).elim .misuse (readMain settings false) := by
  induction options generalizing settings with
  | nil => rfl
  | cons option options ih =>
    obtain ⟨s, value⟩ := option
    change (classify mainOptions (s.spelling :: value :: (settingArguments options ++ rest))).elim _ _ = _
    rw [readMain_setting, Settings.setAll?]
    split
    · cases settings.set s value with
      | none => rfl
      | some settings => exact ih settings
    · rfl

theorem ofArguments_eq (texts : List String) :
    Invocation.ofArguments texts =
      (classify mainOptions texts).elim .misuse (readMain .initial false) := by
  rw [Invocation.ofArguments]
  cases classify mainOptions texts <;> rfl

theorem readCommand_eq_request (settings : Settings) {name : String} {texts : List String}
    {options : Options Flag} {arguments : List (Argument Flag)} {flags : List Flag}
    {operand : Option String} {command : Command} (hflags : flagsOf name = some options)
    (htexts : classify options texts = some arguments)
    (hoperand : readOperand [] none arguments = some (flags, operand))
    (hhelp : flags.contains .help = false) (hcommand : commandOf name flags operand = some command) :
    readCommand settings name texts = .request ⟨settings, command⟩ := by
  have hread : (do readOperand [] none (← classify (← flagsOf name) texts)) = some (flags, operand) := by
    rw [hflags, Option.bind_eq_bind, Option.bind_some, htexts]
    exact hoperand
  rw [readCommand]
  simp only [hread, hhelp, hcommand, Bool.false_eq_true, if_false]

/-- A command behind options is read with the settings that these leave. -/
theorem ofArguments_command (options : List (Setting × String)) {name : String}
    (hname : name.toList.head? ≠ some '-') {texts : List String}
    (htexts : (classify mainOptions texts).isSome) :
    Invocation.ofArguments (settingArguments options ++ name :: texts) =
      (Settings.initial.setAll? options).elim .misuse fun settings => readCommand settings name texts := by
  obtain ⟨arguments, harguments⟩ := Option.isSome_iff_exists.1 htexts
  rw [ofArguments_eq, readMain_settingArguments, classify_cons_of_head?_ne hname, harguments]
  congr 1
  funext settings
  have hread : readMain settings false (⟨name, .operand⟩ :: arguments) =
      readCommand settings name (arguments.map Argument.text) := by
    rw [readMain]
    cases readCommand settings name (arguments.map Argument.text) <;> rfl
  rw [← map_text_of_classify harguments, ← hread]
  rfl

def Flag.spelling : Flag → String
  | help => "--help"
  | raw => "--raw"
  | korean => "--korean"
  | jamoReport => "--jamo-report"

/-- The arguments ask for decoding the operand, with flags in front of it and behind it. Among them may be
those for Korean and for a report, in any number. -/
inductive AsksToDecode (hex : String) (korean jamoReport : Bool) : List String → Prop
  | around (before after : List Flag)
    (hflags : ∀ flag ∈ before ++ after, flag = .korean ∨ flag = .jamoReport)
    (hkorean : (before ++ after).contains .korean = korean)
    (hreport : (before ++ after).contains .jamoReport = jamoReport) :
    AsksToDecode hex korean jamoReport
      ("decode" :: (before.map Flag.spelling ++ hex :: after.map Flag.spelling))

def flagArguments {α : Type} (role : Flag → Role α) (flags : List Flag) : List (Argument α) :=
  flags.map fun flag => ⟨flag.spelling, role flag⟩

section Flags

variable {α : Type} {options : Options α} {role : Flag → Role α} {flags before after : List Flag}
  {hex : String}

theorem Flag.spelling_ne_separator (flag : Flag) : flag.spelling ≠ "--" := by cases flag <;> decide

theorem classify_flags_append (h : ∀ flag ∈ flags, roleOf options flag.spelling = some (role flag))
    (rest : List String) :
    classify options (flags.map Flag.spelling ++ rest) =
      (classify options rest).map (flagArguments role flags ++ ·) := by
  induction flags with
  | nil => simp [flagArguments]
  | cons flag flags ih =>
    rw [List.forall_mem_cons] at h
    rw [List.map_cons, List.cons_append, classify_cons_of_role h.1 flag.spelling_ne_separator, ih h.2,
      Option.map_map]
    rfl

theorem classify_around (h : ∀ flag ∈ before ++ after, roleOf options flag.spelling = some (role flag))
    (hhex : hex.toList.head? ≠ some '-') :
    classify options (before.map Flag.spelling ++ hex :: after.map Flag.spelling) =
      some (flagArguments role before ++ ⟨hex, .operand⟩ :: flagArguments role after) := by
  rw [List.forall_mem_append] at h
  have hafter := classify_flags_append h.2 []
  rw [List.append_nil, classify_nil, Option.map_some, List.append_nil] at hafter
  rw [classify_flags_append h.1, classify_cons_of_head?_ne hhex, hafter]
  rfl

theorem readOperand_flags_append (read flags : List Flag) (operand : Option String)
    (rest : List (Argument Flag)) :
    readOperand read operand (flagArguments (.known · none) flags ++ rest) =
      readOperand (flags.reverse ++ read) operand rest := by
  induction flags generalizing read with
  | nil => rfl
  | cons flag flags ih =>
    rw [flagArguments, List.map_cons, List.cons_append, readOperand, List.reverse_cons,
      List.append_assoc]
    exact ih (flag :: read)

theorem readOperand_around (before after : List Flag) (hex : String) :
    readOperand [] none (flagArguments (.known · none) before ++
        ⟨hex, .operand⟩ :: flagArguments (.known · none) after) =
      some ((before ++ after).reverse, some hex) := by
  have hread : ∀ read, readOperand read none (⟨hex, .operand⟩ :: flagArguments (.known · none) after) =
      readOperand read (some hex) (flagArguments (.known · none) after) := by
    intro read
    rcases after with - | ⟨flag, - | ⟨flag', after⟩⟩ <;> rfl
  have hafter := readOperand_flags_append before.reverse after (some hex) []
  rw [List.append_nil] at hafter
  rw [readOperand_flags_append, List.append_nil, hread, hafter, readOperand, List.reverse_append]

/-- Wherever the flags stand, the arguments are read as one request for decoding. -/
theorem AsksToDecode.ofArguments {korean jamoReport : Bool} {command : List String}
    (h : AsksToDecode hex korean jamoReport command) (hhex : hex.toList.head? ≠ some '-')
    (options : List (Setting × String)) :
    Invocation.ofArguments (settingArguments options ++ command) =
      (Settings.initial.setAll? options).elim .misuse fun settings =>
        .request ⟨settings, .decode hex korean jamoReport⟩ := by
  obtain ⟨before, after, hflags, rfl, rfl⟩ := h
  obtain ⟨own, hown⟩ : ∃ own, flagsOf "decode" = some own := ⟨_, rfl⟩
  have hunknown : ∀ flag ∈ before ++ after, roleOf mainOptions flag.spelling = some .unknown := by
    intro flag hflag
    rcases hflags flag hflag with rfl | rfl <;> decide +kernel
  have hknown : ∀ flag ∈ before ++ after, roleOf own flag.spelling = some (.known flag none) := by
    obtain rfl := Option.some.inj hown
    intro flag hflag
    rcases hflags flag hflag with rfl | rfl <;> decide +kernel
  have hhelp : (before ++ after).reverse.contains .help = false := by
    rw [List.contains_reverse, List.contains_eq_mem, decide_eq_false_iff_not]
    exact fun hmem => by simpa using hflags .help hmem
  rw [ofArguments_command options (by decide) (by rw [classify_around hunknown hhex]; rfl)]
  congr 1
  funext settings
  refine readCommand_eq_request settings hown (classify_around hknown hhex)
    (readOperand_around before after hex) hhelp ?_
  simp only [commandOf, List.contains_reverse]

end Flags

end FontCodec.CommandLine
