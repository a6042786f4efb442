import RoleChart.Proofs.Arguments.Items
import RoleChart.Proofs.Command
import RoleChart.Proofs.Text
/-!
What command lines are read as. The words of a command line give items one after the other
(`Spelled`), and a setting can be written in several ways (`Item.Spelled`). Reading the words of one item
comes to adding the item (`Progress.takes_of_spelled`), so reading a command line comes to adding its items
in order (`Progress.settled_of_spelled`), and the arguments are read off the items (`ofItems`).

An item is not added when it is read: an operand, and a value that is a word of its own, count only with
the next word. So what reading an item keeps is said of the progress once it is settled
(`Progress.Takes`).

* `ofList_of_spelled`: the arguments do not depend on the order of the items or on how they are written, what
  the command line leaves open comes from the environment or is as usual, and nothing can be given twice.
-/
namespace RoleChart.Arguments

/-! ## Spelling -/

/-- The words that give an item. A setting stands before its value, as the next word or with an equals
sign; that of the level also has a letter, which its value can follow at once. -/
inductive Item.Spelled : Item → List String → Prop
  | operand (path : String) : Spelled (.operand path) [path]
  | apart (s : Setting) (value : String) : Spelled (.setting s value) ["--" ++ s.name, value]
  | joined (s : Setting) (value : String) :
      Spelled (.setting s value) ["--" ++ s.name ++ "=" ++ value]
  | letterApart (value : String) : Spelled (.setting .level value) ["-L", value]
  | letterJoined (value : String) : Spelled (.setting .level value) ["-L" ++ value]
  | letterEquals (value : String) : Spelled (.setting .level value) ["-L=" ++ value]
  | switch (s : Switch) : Spelled (.switch s) ["--" ++ s.name]

/-- The command lines that give items one after the other. -/
inductive Spelled : List Item → List String → Prop
  | nil : Spelled [] []
  | cons {item : Item} {words : List String} {items : List Item} {rest : List String} :
      item.Spelled words → Spelled items rest → Spelled (item :: items) (words ++ rest)

/-! ## Forms of words -/

theorem Form.of_dashes {argument : String} {c : Char} {cs : List Char}
    (h : argument.toList = '-' :: '-' :: c :: cs) :
    Form.of argument =
      .long (String.ofList ((c :: cs).takeWhile (· ≠ '=')))
        (((c :: cs).dropWhile (· ≠ '=')).tail?.map String.ofList) := by
  unfold Form.of
  split
  · simp_all
  · rename_i rest _ hrest
    obtain rfl : c :: cs = rest := by simpa [h] using hrest
    dsimp only
    cases (c :: cs).dropWhile (· ≠ '=') <;> rfl
  · simp_all
  · simp_all

theorem Form.of_name {name : String} (hne : name ≠ "") (hname : '=' ∉ name.toList) :
    Form.of ("--" ++ name) = .long name none := by
  obtain ⟨c, cs, hcs⟩ := List.exists_cons_of_ne_nil (mt String.toList_eq_nil_iff.mp hne)
  have hchars : ("--" ++ name).toList = '-' :: '-' :: c :: cs := by simp [hcs]
  rw [Form.of_dashes hchars, ← hcs, takeWhile_ne_of_notMem hname, dropWhile_ne_of_notMem hname,
    String.ofList_toList]
  rfl

theorem Form.of_name_value {name : String} (hne : name ≠ "") (hname : '=' ∉ name.toList)
    (value : String) : Form.of ("--" ++ name ++ "=" ++ value) = .long name (some value) := by
  obtain ⟨c, cs, hcs⟩ := List.exists_cons_of_ne_nil (mt String.toList_eq_nil_iff.mp hne)
  have hchars : ("--" ++ name ++ "=" ++ value).toList =
      '-' :: '-' :: c :: (cs ++ '=' :: value.toList) := by simp [hcs]
  rw [Form.of_dashes hchars, ← List.cons_append, ← hcs, takeWhile_ne_append hname,
    dropWhile_ne_append hname, String.ofList_toList]
  simp

theorem Form.of_plain {value : String} (h : Item.IsPlain value) : Form.of value = .plain := by
  obtain ⟨c, cs, hcs⟩ := List.exists_cons_of_ne_nil (mt String.toList_eq_nil_iff.mp h.1)
  have hdash : c ≠ '-' := fun heq => h.2 (hcs ▸ congrArg some heq)
  unfold Form.of
  rw [hcs]
  split
  · simp_all
  · simp_all
  · simp_all
  · rfl

theorem Form.of_letter (value : String) : Form.of ("-L" ++ value) = .short 'L' value.toList := by
  have hchars : ("-L" ++ value).toList = '-' :: 'L' :: value.toList := by simp
  unfold Form.of
  rw [hchars]
  rfl

/-! ## Reading items -/

namespace Progress

variable {p : Progress} {g g' : Given} {s : Setting} {value : String} {item : Item}

/-- Whether the next word is read for itself: no setting waits for its value, and no separator was
read. -/
def Ready (p : Progress) : Prop := p.separated = false ∧ ∀ s, p.pending ≠ .setting s none

theorem operands_set (h : g.set s value = .ok g') : g'.operands = g.operands := by
  cases s <;>
  · obtain ⟨_, -, hset⟩ := Outcome.exists_of_bind_eq_ok h
    cases hset
    rfl

theorem operands_turnOn {s : Switch} (h : g.turnOn s = .ok g') : g'.operands = g.operands := by
  unfold Given.turnOn at h
  split at h
  · cases h
  · cases h
    rfl

theorem length_operands_addOperand (h : g.addOperand value = .ok g') :
    g'.operands.length = g.operands.length + 1 := by
  unfold Given.addOperand at h
  split at h
  · cases h
    simp
  · cases h

theorem length_operands_settled (h : p.settled = .ok g) : g.operands.length = p.operandCount := by
  obtain ⟨given, pending, separated⟩ := p
  cases pending with
  | nothing =>
    cases h
    rfl
  | setting s value =>
    cases value with
    | none => cases h
    | some value => exact congrArg List.length (operands_set h)
  | operand path => exact length_operands_addOperand h

/-- What reading an item comes to: the item is added to all that was read before it, now or when the next
word is read. One operand too many is noticed before that. -/
def Takes (p : Progress) (item : Item) : Except UsageError Progress → Prop
  | .ok p' => p'.Ready ∧ p'.operandCount = p.operandCount + (operands [item]).length ∧
      p'.settled = p.settled >>= (Given.add · item)
  | .error e => p.settled >>= (Given.add · item) = .error e ∨
      2 < p.operandCount + (operands [item]).length ∧ e = .unknownArgument

theorem takes_readOperand (hp : p.separated = false) (path : String) :
    p.Takes (.operand path) (p.readOperand path) := by
  unfold readOperand
  split
  · rename_i hcount
    exact Or.inr ⟨Nat.lt_succ_of_le hcount, rfl⟩
  · cases hsettled : p.settled with
    | error e => exact Or.inl (by rw [hsettled]; rfl)
    | ok g =>
      refine ⟨⟨hp, nofun⟩, ?_, by rw [hsettled]; rfl⟩
      exact congrArg (· + 1) (length_operands_settled hsettled)

/-- An item that is no operand can be added at once. -/
theorem takes_add (hp : p.separated = false) (hitem : operands [item] = [])
    (hkept : ∀ {g g' : Given}, g.add item = .ok g' → g'.operands = g.operands) :
    p.Takes item (p.settled >>= fun g => g.add item >>= fun g' => pure ⟨g', .nothing, p.separated⟩) := by
  cases hsettled : p.settled with
  | error e => exact Or.inl (by rw [hsettled]; rfl)
  | ok g =>
    have hadd : p.settled >>= (Given.add · item) = g.add item := by
      rw [hsettled]
      rfl
    change p.Takes _ (g.add item >>= fun g' => pure ⟨g', .nothing, p.separated⟩)
    cases hitemAdded : g.add item with
    | error e => exact Or.inl (hadd.trans hitemAdded)
    | ok g' =>
      refine ⟨⟨hp, nofun⟩, ?_, (hadd.trans hitemAdded).symm⟩
      rw [← length_operands_settled hsettled, ← hkept hitemAdded, hitem]
      rfl

theorem takes_readSetting (hp : p.separated = false) (s : Setting) (value : String) :
    p.Takes (.setting s value) (p.readSetting s (some value)) :=
  takes_add hp rfl operands_set

theorem takes_readSwitch (hp : p.separated = false) (s : Switch) :
    p.Takes (.switch s) (p.readSwitch s) :=
  takes_add hp rfl operands_turnOn

/-- A setting can be followed by its value as the next word. -/
theorem takes_readSetting_readPlain (hp : p.separated = false) (s : Setting) (value : String) :
    p.Takes (.setting s value) (p.readSetting s none >>= (readPlain · value)) := by
  unfold readSetting
  cases hsettled : p.settled with
  | error e => exact Or.inl (by rw [hsettled]; rfl)
  | ok g =>
    refine ⟨⟨hp, nofun⟩, ?_, by rw [hsettled]; rfl⟩
    exact length_operands_settled hsettled

theorem readPlain_of_ready (hp : p.Ready) (word : String) : p.readPlain word = p.readOperand word := by
  unfold readPlain
  split
  · rename_i s hpending
    exact absurd hpending (hp.2 s)
  · rfl

theorem read_of_not_separated (hp : p.separated = false) (word : String) :
    p.read word = match Form.of word with
      | .separator => .ok { p with separated := true }
      | .long name value => p.readLong name value
      | .short letter rest => p.readShort letter rest
      | .plain => p.readPlain word := by
  rw [read, hp]
  rfl

theorem readLong_setting (p : Progress) (s : Setting) (value : Option String) :
    p.readLong s.name value = p.readSetting s value := by
  rw [readLong, Setting.ofName?_name]

theorem readLong_switch (p : Progress) (s : Switch) : p.readLong s.name none = p.readSwitch s := by
  simp [readLong]

/-- A value follows its setting as the next word. -/
theorem takes_setting_apart (hp : p.separated = false) {s : Setting} {word value : String}
    (hvalue : Item.IsPlain value) (hword : p.read word = p.readSetting s none) :
    p.Takes (.setting s value) ([word, value].foldlM read p) := by
  have hnext (p' : Progress) (h : p.readSetting s none = .ok p') :
      p'.read value = p'.readPlain value := by
    have hp' : p'.separated = false := by
      obtain ⟨g, -, hset⟩ := Outcome.exists_of_bind_eq_ok h
      cases hset
      exact hp
    rw [read_of_not_separated hp', Form.of_plain hvalue]
  have hread : [word, value].foldlM read p = p.readSetting s none >>= (readPlain · value) := by
    rw [List.foldlM_cons, hword]
    cases hset : p.readSetting s none with
    | error e => rfl
    | ok p' =>
      change [value].foldlM read p' = p'.readPlain value
      rw [List.foldlM_cons, hnext p' hset]
      exact bind_pure _
  rw [hread]
  exact takes_readSetting_readPlain hp s value

theorem takes_word {word : String} {read' : Except UsageError Progress} (hword : p.read word = read')
    (h : p.Takes item read') : p.Takes item ([word].foldlM read p) := by
  rw [List.foldlM_cons, hword]
  exact (bind_pure read').symm ▸ h

theorem readShort_level (p : Progress) (l : Journal.Level) :
    p.readShort 'L' l.name.toList = p.readSetting .level (some l.name) := by
  cases l <;> rfl

theorem readShort_level_equals (p : Progress) (value : String) :
    p.readShort 'L' ('=' :: value.toList) = p.readSetting .level (some value) := by
  change p.readSetting .level (some (String.ofList value.toList)) = _
  rw [String.ofList_toList]

/-- Whatever words give an item, reading them comes to adding it. -/
theorem takes_of_spelled {words : List String} (hp : p.Ready) (hok : item.Admissible)
    (h : item.Spelled words) : p.Takes item (words.foldlM read p) := by
  have hread := read_of_not_separated hp.1
  cases h with
  | operand path =>
    have hplain : Item.IsPlain path := by
      cases hok with
      | operand hplain => exact hplain
    refine takes_word ?_ (takes_readOperand hp.1 path)
    rw [hread, Form.of_plain hplain]
    exact readPlain_of_ready hp path
  | apart s value =>
    refine takes_setting_apart hp.1 hok.isPlain ?_
    rw [hread, Form.of_name s.name_ne_empty s.equals_notMem_name]
    exact readLong_setting p s none
  | joined s value =>
    refine takes_word ?_ (takes_readSetting hp.1 s value)
    rw [hread, Form.of_name_value s.name_ne_empty s.equals_notMem_name]
    exact readLong_setting p s (some value)
  | letterApart value =>
    refine takes_setting_apart hp.1 hok.isPlain ?_
    rw [hread]
    rfl
  | letterJoined value =>
    cases hok with
    | level l =>
      refine takes_word ?_ (takes_readSetting hp.1 .level l.name)
      rw [hread, Form.of_letter]
      exact readShort_level p l
  | letterEquals value =>
    have hequals : "-L=" ++ value = "-L" ++ ("=" ++ value) := by
      rw [← String.append_assoc]
      rfl
    refine takes_word ?_ (takes_readSetting hp.1 .level value)
    rw [hequals, hread, Form.of_letter, String.toList_append]
    exact readShort_level_equals p value
  | switch s =>
    refine takes_word ?_ (takes_readSwitch hp.1 s)
    rw [hread, Form.of_name s.name_ne_empty s.equals_notMem_name]
    exact readLong_switch p s

/-- Reading a command line comes to adding its items one after the other, or there is one operand too
many. -/
theorem settled_of_spelled {items : List Item} {words : List String} (h : Spelled items words)
    (hok : ∀ item ∈ items, item.Admissible) (hp : p.Ready) :
    words.foldlM read p >>= settled = p.settled >>= (items.foldlM Given.add ·) ∨
      2 < p.operandCount + (operands items).length ∧
        words.foldlM read p >>= settled = .error .unknownArgument := by
  -- The words of the first item leave the progress ready again, with the item added once it is settled.
  induction h generalizing p with
  | nil =>
    refine Or.inl ?_
    change p.settled = p.settled >>= pure
    rw [bind_pure]
  | @cons item words items rest hitem _ ih =>
    have htakes := takes_of_spelled hp (hok item (by simp)) hitem
    have hcount : (operands (item :: items)).length =
        (operands [item]).length + (operands items).length := by
      rw [← List.length_append, operands, operands, operands, ← List.filterMap_append]
      rfl
    have hadd : p.settled >>= ((item :: items).foldlM Given.add ·) =
        (p.settled >>= (Given.add · item)) >>= (items.foldlM Given.add ·) := by
      rw [bind_assoc]
      rfl
    rw [List.foldlM_append, hadd, hcount, ← Nat.add_assoc, bind_assoc]
    cases hstep : words.foldlM read p with
    | error e =>
      rw [hstep] at htakes
      obtain herror | ⟨hmany, rfl⟩ := htakes
      · exact Or.inl (by rw [herror]; rfl)
      · exact Or.inr ⟨by omega, rfl⟩
    | ok p' =>
      rw [hstep] at htakes
      obtain ⟨hp', hcount', hsettled⟩ := htakes
      rw [← hsettled, ← hcount']
      exact ih (fun i hi => hok i (List.mem_cons_of_mem _ hi)) hp'

end Progress

variable {items : List Item} {words : List String}

/-- What a command line gives is what its items give, where nothing is given twice. -/
theorem given_of_spelled (h : Spelled items words) (hok : ∀ item ∈ items, item.Admissible) :
    given words = (if GivenOnce items then .ok (.ofItems items) else .error .givenTwice) ∨
      2 < (operands items).length ∧ given words = .error .unknownArgument := by
  rw [← Given.foldlM_add hok, ← Nat.zero_add (operands items).length]
  exact Progress.settled_of_spelled h hok (p := .start) ⟨rfl, nofun⟩

/-! ## Arguments that items give -/

/-- The arguments that items give together with the environment, where they have these two operands. -/
def ofItems (environment : Environment) (items : List Item) (playbook output : String) : Arguments where
  playbook := playbook
  output := output
  roleDir := ((value? .roleDir items).or environment.roleDir).map Path.ofString
  highlightServices := .switch .highlightServices ∈ items
  listServices := .switch .listServices ∈ items
  servicesFile := (value? .servicesFile items).map Path.ofString
  layout := ((value? .layout items).or environment.layout).getD usualLayout
  reexpand := .switch .reexpand ∈ items
  level := ((value? .level items).bind Journal.Level.ofName?).getD .warn
  logFormat := ((value? .logFormat items).bind LogFormat.ofName?).getD .pretty
  json := .switch .json ∈ items

/-- The path that a setting gives is the value as it stands. -/
theorem bind_path?_value? (hok : ∀ item ∈ items, item.Admissible) (s : Setting) :
    (value? s items).bind Given.path? = value? s items := by
  cases hvalue : value? s items with
  | none => rfl
  | some value => exact Given.path?_of_isPlain (hok _ (mem_of_value?_eq_some hvalue)).isPlain

theorem has_ofItems (items : List Item) (s : Switch) :
    (Given.ofItems items).has s = decide (.switch s ∈ items) := by
  rw [Bool.eq_iff_iff, decide_eq_true_iff, ← Given.contains_switch_ofItems]
  rfl

theorem roleDirFrom_eq (environment : Environment) (g : Given) :
    roleDirFrom environment g =
      if g.roleDir = none ∧ environment.roleDir = some "" then .error .invalidValue
      else .ok (g.roleDir.or environment.roleDir) := by
  obtain ⟨dir, layout⟩ := environment
  cases hdir : g.roleDir with
  | some path => simp [roleDirFrom, hdir]
  | none =>
    cases dir with
    | none => simp [roleDirFrom, hdir]
    | some value =>
      by_cases hempty : value = "" <;> simp [roleDirFrom, hdir, Given.path?, hempty]

theorem complete_ofItems (environment : Environment) (hok : ∀ item ∈ items, item.Admissible)
    {playbook output : String} (hoperands : operands items = [playbook, output]) :
    complete environment (.ofItems items) =
      if value? .roleDir items = none ∧ environment.roleDir = some "" then .error .invalidValue
      else .ok (ofItems environment items playbook output) := by
  have hdir : (Given.ofItems items).roleDir = value? .roleDir items := bind_path?_value? hok _
  have hfile : (Given.ofItems items).servicesFile = value? .servicesFile items :=
    bind_path?_value? hok _
  have hlayout : ((Given.ofItems items).layout <|> environment.layout) =
      (value? .layout items).or environment.layout := by
    rw [Option.orElse_eq_orElse, Option.orElse_eq_or]
    exact congrArg (Option.or · _) (Option.bind_fun_some _)
  have hboth : (Given.ofItems items).operands = [playbook, output] := hoperands
  unfold complete
  rw [roleDirFrom_eq, hdir]
  split
  · rfl
  · simp only [hboth, hfile, hlayout, has_ofItems]
    rfl

/-- A command line that gives something twice is not understood. -/
theorem ofList_of_givenTwice (environment : Environment) (h : Spelled items words)
    (hok : ∀ item ∈ items, item.Admissible) (htwice : ¬ GivenOnce items) :
    ofList environment words = .error .givenTwice ∨
      2 < (operands items).length ∧ ofList environment words = .error .unknownArgument := by
  have hgiven := given_of_spelled h hok
  rw [if_neg htwice] at hgiven
  refine hgiven.imp (fun htwo => ?_) (fun hmany => ⟨hmany.1, ?_⟩)
  · rw [ofList, htwo]
    rfl
  · rw [ofList, hmany.2]
    rfl

theorem ofList_of_givenOnce (environment : Environment) (h : Spelled items words)
    (hok : ∀ item ∈ items, item.Admissible) (honce : GivenOnce items) {playbook output : String}
    (hoperands : operands items = [playbook, output]) :
    ofList environment words =
      if value? .roleDir items = none ∧ environment.roleDir = some "" then .error .invalidValue
      else .ok (ofItems environment items playbook output) := by
  have hgiven : given words = .ok (.ofItems items) := by
    obtain hgiven | ⟨hmany, -⟩ := given_of_spelled h hok
    · rw [hgiven, if_pos honce]
    · rw [hoperands] at hmany
      exact absurd hmany (lt_irrefl 2)
  rw [ofList, hgiven]
  exact complete_ofItems environment hok hoperands

/-- In whichever order the same items are given, they are the same arguments. -/
theorem ofItems_of_perm {items' : List Item} (honce : GivenOnce items) (hperm : items'.Perm items)
    (environment : Environment) (playbook output : String) :
    ofItems environment items' playbook output = ofItems environment items playbook output := by
  simp only [ofItems, honce.value?_eq hperm, hperm.mem_iff]

/-- **A command line is read as what it gives, in whatever order and spelling.** If a setting or a switch is
given twice, at whatever places, it is not understood. If each is given once at most, between two operands,
neither the order of the items nor how they are written matters as long as the operands keep theirs. Where
the command line has no directory of roles or no layout program, it is that of the environment, and where
the environment has none, the usual one, which for the roles is counted from the directory of the program. A
directory of roles from the environment has to have a character. -/
theorem ofList_of_spelled (environment : Environment) {items : List Item} {words : List String}
    (hwords : Spelled items words) (hok : ∀ item ∈ items, item.Admissible) :
    (¬ GivenOnce items → ∃ e, ofList environment words = .error e ∧ e.exitCode = 2) ∧
    ∀ playbook output, operands items = [playbook, output] →
      (¬ GivenOnce items → ofList environment words = .error .givenTwice) ∧
      (GivenOnce items →
        (ofList environment words =
          if value? .roleDir items = none ∧ environment.roleDir = some "" then .error .invalidValue
          else .ok (ofItems environment items playbook output)) ∧
        (∀ items' words', items'.Perm items → operands items' = [playbook, output] →
          Spelled items' words' → ofList environment words' = ofList environment words) ∧
        ∀ disk (home : Path) c,
          Command.ofArguments disk (.ok home) (ofItems environment items playbook output) = .ok c →
          c.roleDir = (((value? .roleDir items).or environment.roleDir).map Path.ofString).getD
            (home.join Command.usualRoleDir)) := by
  refine ⟨fun htwice => ?_, fun playbook output hoperands => ⟨fun htwice => ?_, fun honce => ?_⟩⟩
  · obtain htwo | ⟨-, hmany⟩ := ofList_of_givenTwice environment hwords hok htwice
    · exact ⟨_, htwo, rfl⟩
    · exact ⟨_, hmany, rfl⟩
  · obtain htwo | ⟨hmany, -⟩ := ofList_of_givenTwice environment hwords hok htwice
    · exact htwo
    · rw [hoperands] at hmany
      exact absurd hmany (lt_irrefl 2)
  · have hread := ofList_of_givenOnce environment hwords hok honce hoperands
    refine ⟨hread, fun items' words' hperm hoperands' hwords' => ?_, fun disk home c h => ?_⟩
    · have hok' : ∀ item ∈ items', item.Admissible := fun i hi => hok i (hperm.mem_iff.mp hi)
      rw [hread, ofList_of_givenOnce environment hwords' hok' (honce.of_perm hperm) hoperands',
        honce.value?_eq hperm, ofItems_of_perm honce hperm]
    · have hroleDir := (Command.of_ofArguments_ok h).2.2.2
      rw [Command.roleDirectory_ok] at hroleDir
      exact (Except.ok.inj hroleDir).symm

/-- A command line where the operands stand apart and settings are written in three ways, one with all
operands first, and one that turns a switch on twice. -/
theorem ofList_of_spelled_mixed :
    let environment : Environment := ⟨some "shared", some "fdp"⟩
    let arguments : Arguments :=
      ⟨"site.yml", "site.dot", some "roles", false, false, none, "fdp", true, .debug, .pretty, false⟩
    ofList environment ["--reexpand", "site.yml", "--role-dir=roles", "-L", "debug", "site.dot"] =
        .ok arguments ∧
      ofList environment ["site.yml", "site.dot", "-Ldebug", "--role-dir", "roles", "--reexpand"] =
        .ok arguments ∧
      ofList environment ["--reexpand", "site.yml", "--reexpand", "site.dot"] = .error .givenTwice := by
  have hmixed : Spelled [.switch .reexpand, .operand "site.yml", .setting .roleDir "roles",
      .setting .level "debug", .operand "site.dot"]
      ["--reexpand", "site.yml", "--role-dir=roles", "-L", "debug", "site.dot"] :=
    .cons (.switch .reexpand) <| .cons (.operand _) <| .cons (.joined .roleDir "roles") <|
      .cons (.letterApart "debug") <| .cons (.operand _) .nil
  have hoperandsFirst : Spelled [.operand "site.yml", .operand "site.dot", .setting .level "debug",
      .setting .roleDir "roles", .switch .reexpand]
      ["site.yml", "site.dot", "-Ldebug", "--role-dir", "roles", "--reexpand"] :=
    .cons (.operand _) <| .cons (.operand _) <| .cons (.letterJoined "debug") <|
      .cons (.apart .roleDir "roles") <| .cons (.switch .reexpand) .nil
  have htwice : Spelled [.switch .reexpand, .operand "site.yml", .switch .reexpand, .operand "site.dot"]
      ["--reexpand", "site.yml", "--reexpand", "site.dot"] :=
    .cons (.switch .reexpand) <| .cons (.operand _) <| .cons (.switch .reexpand) <|
      .cons (.operand _) .nil
  have hok : ∀ item ∈ ([.switch .reexpand, .operand "site.yml", .setting .roleDir "roles",
      .setting .level "debug", .operand "site.dot"] : List Item), item.Admissible := by
    simp only [List.forall_mem_cons]
    exact ⟨.switch _, .operand (by decide), .roleDir (by decide), .level .debug,
      .operand (by decide), nofun⟩
  have hokTwice : ∀ item ∈ ([.switch .reexpand, .operand "site.yml", .switch .reexpand,
      .operand "site.dot"] : List Item), item.Admissible := by
    simp only [List.forall_mem_cons]
    exact ⟨.switch _, .operand (by decide), .switch _, .operand (by decide), nofun⟩
  intro environment arguments
  obtain ⟨hread, hsame, -⟩ :=
    ((ofList_of_spelled environment hmixed hok).2 "site.yml" "site.dot" rfl).2 (by decide)
  refine ⟨hread, (hsame _ _ (by decide) rfl hoperandsFirst).trans hread, ?_⟩
  exact ((ofList_of_spelled environment htwice hokTwice).2 "site.yml" "site.dot" rfl).1 (by decide)

/-- An empty value in the environment is not taken for a missing one: an empty layout program is kept as it
stands, and an empty directory of roles is refused. -/
theorem ofList_of_empty_variables :
    Spelled [.operand "site.yml", .operand "site.dot"] ["site.yml", "site.dot"] ∧
      (∃ a, ofList ⟨none, some ""⟩ ["site.yml", "site.dot"] = .ok a ∧ a.layout = "" ∧
        a.layout ≠ usualLayout) ∧
      ofList ⟨some "", none⟩ ["site.yml", "site.dot"] = .error .invalidValue :=
  ⟨.cons (.operand _) (.cons (.operand _) .nil), ⟨_, rfl, rfl, by decide⟩, rfl⟩

end RoleChart.Arguments
