import RoleChart.Arguments
import Mathlib.Data.List.Nodup
import Mathlib.Data.List.Induction
/-!
What a command line gives, item by item. An item is an operand, a setting with its value or a switch. Items
are added to what is given one after the other (`Given.add`); as long as no setting and no switch is there
twice this never fails, and what is given at the end is read off the items (`Given.ofItems`), otherwise it
fails with the second one (`foldlM_add`). Where every setting is given at most once, its value is that of
the only item that gives it (`value?_eq_some_iff`), so the order of the items does not show.
-/
namespace RoleChart

/-! ## Names -/

/-- The name of a setting on a command line. -/
def Setting.name : Setting → String
  | .roleDir => "role-dir"
  | .servicesFile => "services-file"
  | .layout => "layout"
  | .level => "level"
  | .logFormat => "log-format"

/-- The name of a switch on a command line. -/
def Switch.name : Switch → String
  | .highlightServices => "highlight-services"
  | .listServices => "list-services"
  | .reexpand => "reexpand"
  | .json => "json"

/-- The name of a level. -/
def Journal.Level.name : Journal.Level → String
  | .error => "error"
  | .warn => "warn"
  | .info => "info"
  | .debug => "debug"
  | .trace => "trace"

/-- The name of a format. -/
def LogFormat.name : LogFormat → String
  | .pretty => "pretty"
  | .compact => "compact"
  | .json => "json"

@[simp] theorem Setting.ofName?_name (s : Setting) : Setting.ofName? s.name = some s := by
  cases s <;> rfl

@[simp] theorem Switch.ofName?_name (s : Switch) : Switch.ofName? s.name = some s := by
  cases s <;> rfl

@[simp] theorem Setting.ofName?_switch (s : Switch) : Setting.ofName? s.name = none := by
  cases s <;> rfl

theorem Setting.equals_notMem_name (s : Setting) : '=' ∉ s.name.toList := by
  cases s <;> decide

theorem Switch.equals_notMem_name (s : Switch) : '=' ∉ s.name.toList := by
  cases s <;> decide

theorem Setting.name_ne_empty (s : Setting) : s.name ≠ "" := by
  cases s <;> decide

theorem Switch.name_ne_empty (s : Switch) : s.name ≠ "" := by
  cases s <;> decide

@[simp] theorem Journal.Level.ofName?_name (l : Journal.Level) : ofName? l.name = some l := by
  cases l <;> rfl

@[simp] theorem LogFormat.ofName?_name (f : LogFormat) : ofName? f.name = some f := by
  cases f <;> rfl

namespace Arguments

/-! ## Items -/

/-- What a command line gives at one place. -/
inductive Item where
  | operand (path : String)
  | setting (setting : Setting) (value : String)
  | switch (switch : Switch)
  deriving Repr, DecidableEq

namespace Item

/-- The path of an operand. -/
def operand? : Item → Option String
  | operand path => some path
  | setting _ _ => none
  | switch _ => none

/-- A switch that is turned on. -/
def switch? : Item → Option Switch
  | operand _ => none
  | setting _ _ => none
  | switch s => some s

/-- What can be given once only. -/
def option? : Item → Option (Setting ⊕ Switch)
  | operand _ => none
  | setting s _ => some (.inl s)
  | switch s => some (.inr s)

/-- The value that an item gives to a setting. -/
def valueOf? (s : Setting) : Item → Option String
  | operand _ => none
  | setting t value => if t = s then some value else none
  | switch _ => none

/-- Whether a value can stand on a command line: it has a character, and the first is no dash. -/
def IsPlain (value : String) : Prop := value ≠ "" ∧ value.toList.head? ≠ some '-'

instance (value : String) : Decidable (IsPlain value) := inferInstanceAs (Decidable (_ ∧ _))

/-- Whether the value of an item is admissible. That of the level or of the format of reports is one of
their names. -/
inductive Admissible : Item → Prop
  | operand {path} : IsPlain path → Admissible (operand path)
  | roleDir {path} : IsPlain path → Admissible (setting .roleDir path)
  | servicesFile {path} : IsPlain path → Admissible (setting .servicesFile path)
  | layout {program} : IsPlain program → Admissible (setting .layout program)
  | level (l : Journal.Level) : Admissible (setting .level l.name)
  | logFormat (f : LogFormat) : Admissible (setting .logFormat f.name)
  | switch (s : Switch) : Admissible (switch s)

theorem Admissible.isPlain {s : Setting} {value : String} (h : Admissible (setting s value)) :
    IsPlain value := by
  cases h with
  | roleDir h => exact h
  | servicesFile h => exact h
  | layout h => exact h
  | level l => cases l <;> decide
  | logFormat f => cases f <;> decide

end Item

/-- The operands among items. -/
def operands (items : List Item) : List String := items.filterMap Item.operand?

/-- The settings and switches among items. -/
def options (items : List Item) : List (Setting ⊕ Switch) := items.filterMap Item.option?

/-- Whether no setting and no switch is given twice. -/
def GivenOnce (items : List Item) : Prop := (options items).Nodup

instance (items : List Item) : Decidable (GivenOnce items) := inferInstanceAs (Decidable (options items).Nodup)

/-- The value that is given to a setting first. -/
def value? (s : Setting) (items : List Item) : Option String := items.findSome? (Item.valueOf? s)

variable {items : List Item} {s : Setting} {value : String}

theorem valueOf?_eq_some_iff {item : Item} :
    item.valueOf? s = some value ↔ item = .setting s value := by
  cases item with
  | operand path => simp [Item.valueOf?]
  | setting t v =>
    by_cases h : t = s <;> simp [Item.valueOf?, h]
  | switch t => simp [Item.valueOf?]

theorem option?_eq_inl_iff {item : Item} :
    item.option? = some (.inl s) ↔ ∃ value, item = .setting s value := by
  cases item <;> simp [Item.option?]

theorem inl_mem_options_iff :
    .inl s ∈ options items ↔ ∃ value, .setting s value ∈ items := by
  unfold options
  rw [List.mem_filterMap]
  simp only [option?_eq_inl_iff]
  constructor
  · rintro ⟨_, hmem, value, rfl⟩
    exact ⟨value, hmem⟩
  · rintro ⟨value, hmem⟩
    exact ⟨_, hmem, value, rfl⟩

theorem mem_of_value?_eq_some (h : value? s items = some value) : .setting s value ∈ items := by
  obtain ⟨item, hmem, hvalue⟩ := List.exists_of_findSome?_eq_some h
  rwa [valueOf?_eq_some_iff.mp hvalue] at hmem

theorem value?_isSome_iff : (value? s items).isSome ↔ .inl s ∈ options items := by
  rw [inl_mem_options_iff, value?, List.findSome?_isSome_iff]
  simp only [Option.isSome_iff_exists, valueOf?_eq_some_iff]
  constructor
  · rintro ⟨_, hmem, value, rfl⟩
    exact ⟨value, hmem⟩
  · rintro ⟨value, hmem⟩
    exact ⟨_, hmem, value, rfl⟩

/-- Where a setting is given once at most, it has the value of the only item that gives it. -/
theorem value?_eq_some_iff (h : GivenOnce items) :
    value? s items = some value ↔ .setting s value ∈ items := by
  refine ⟨mem_of_value?_eq_some, fun hmem => ?_⟩
  have hgiven : (value? s items).isSome := value?_isSome_iff.mpr (inl_mem_options_iff.mpr ⟨_, hmem⟩)
  obtain ⟨first, hfirst⟩ := Option.isSome_iff_exists.mp hgiven
  rw [hfirst, Option.some_inj]
  by_contra hne
  -- Two items that give the setting would leave two entries among the options.
  obtain ⟨before, after, rfl⟩ := List.append_of_mem hmem
  have hother : .setting s first ∈ before ++ after := by
    have hitems := mem_of_value?_eq_some hfirst
    simpa [hne] using hitems
  have hoption : .inl s ∈ options (before ++ after) := inl_mem_options_iff.mpr ⟨first, hother⟩
  have hsplit : options (before ++ .setting s value :: after) =
      options before ++ .inl s :: options after := by
    simp [options, Item.option?]
  rw [GivenOnce, hsplit, List.nodup_middle, List.nodup_cons] at h
  exact h.1 (by simpa [options] using hoption)

theorem options_perm {items' : List Item} (h : items'.Perm items) :
    (options items').Perm (options items) := h.filterMap _

theorem GivenOnce.of_perm {items' : List Item} (h : GivenOnce items) (hperm : items'.Perm items) :
    GivenOnce items' := (options_perm hperm).nodup_iff.mpr h

theorem GivenOnce.value?_eq {items' : List Item} (h : GivenOnce items) (hperm : items'.Perm items)
    (s : Setting) : value? s items' = value? s items := by
  refine Option.ext fun value => ?_
  rw [value?_eq_some_iff (h.of_perm hperm), value?_eq_some_iff h, hperm.mem_iff]

theorem givenOnce_concat (items : List Item) (item : Item) :
    GivenOnce (items ++ [item]) ↔ GivenOnce items ∧ ∀ o ∈ item.option?, o ∉ options items := by
  unfold GivenOnce options
  rw [List.filterMap_append]
  cases hoption : item.option? with
  | none => simp [hoption]
  | some o =>
    rw [List.filterMap_cons_some hoption, List.filterMap_nil, List.nodup_middle, List.append_nil,
      List.nodup_cons, and_comm]
    simp

theorem givenOnce_concat_setting (items : List Item) (s : Setting) (value : String) :
    GivenOnce (items ++ [.setting s value]) ↔ GivenOnce items ∧ value? s items = none := by
  rw [givenOnce_concat, ← Option.not_isSome_iff_eq_none, value?_isSome_iff]
  simp [Item.option?]

theorem givenOnce_concat_switch (items : List Item) (s : Switch) :
    GivenOnce (items ++ [.switch s]) ↔ GivenOnce items ∧ .switch s ∉ items := by
  have hoption : .inr s ∈ options items ↔ .switch s ∈ items := by
    unfold options
    rw [List.mem_filterMap]
    constructor
    · rintro ⟨item, hmem, hitem⟩
      cases item <;> simp_all [Item.option?]
    · exact fun hmem => ⟨_, hmem, rfl⟩
  rw [givenOnce_concat, ← hoption]
  simp [Item.option?]

theorem value?_append (items rest : List Item) :
    value? s (items ++ rest) = (value? s items).or (value? s rest) := List.findSome?_append

@[simp] theorem value?_operand (path : String) : value? s [.operand path] = none := rfl

@[simp] theorem value?_switch (t : Switch) : value? s [.switch t] = none := rfl

theorem value?_setting (t : Setting) (value : String) :
    value? s [.setting t value] = if t = s then some value else none := by
  rw [value?, List.findSome?_singleton, Item.valueOf?]

end Arguments

/-! ## Adding items -/

namespace Given

open Arguments

/-- Adds an item to what is given. -/
def add (g : Given) : Item → Except UsageError Given
  | .operand path => g.addOperand path
  | .setting s value => g.set s value
  | .switch s => g.turnOn s

/-- What items give, where no setting is given twice. -/
def ofItems (items : List Item) : Given where
  roleDir := (value? .roleDir items).bind path?
  servicesFile := (value? .servicesFile items).bind path?
  layout := (value? .layout items).bind some
  level := (value? .level items).bind Journal.Level.ofName?
  logFormat := (value? .logFormat items).bind LogFormat.ofName?
  switches := items.filterMap Item.switch?
  operands := Arguments.operands items

theorem path?_of_isPlain {value : String} (h : Item.IsPlain value) : path? value = some value := by
  unfold path?
  rw [if_neg (by simpa using h.1)]

/-- A value that can be read is taken if the setting has none so far. -/
theorem once_bind {α : Type} {s : Setting} {check : String → Option α} {items : List Item}
    {value : String} (h : ∀ v, .setting s v ∈ items ++ [.setting s value] → (check v).isSome)
    (take : Option α → Given) :
    (once ((value? s items).bind check) check value).bind (fun a => .ok (take a)) =
      if value? s items = none then .ok (take ((value? s (items ++ [.setting s value])).bind check))
      else .error .givenTwice := by
  cases hfirst : value? s items with
  | none =>
    obtain ⟨a, ha⟩ := Option.isSome_iff_exists.mp (h value (by simp))
    rw [value?_append, hfirst, value?_setting]
    simp [once, ha, Except.bind]
  | some first =>
    have hmem : .setting s first ∈ items := mem_of_value?_eq_some hfirst
    have hread := h first (List.mem_append_left _ hmem)
    simp [once, hread, Except.bind]

theorem isSome_path? {items : List Item} (h : ∀ item ∈ items, item.Admissible) (s : Setting) :
    ∀ v, .setting s v ∈ items → (path? v).isSome := fun v hv => by
  rw [path?_of_isPlain (h _ hv).isPlain]
  rfl

theorem isSome_level {items : List Item} (h : ∀ item ∈ items, item.Admissible) :
    ∀ v, .setting .level v ∈ items → (Journal.Level.ofName? v).isSome := fun v hv => by
  cases h _ hv
  simp

theorem isSome_logFormat {items : List Item} (h : ∀ item ∈ items, item.Admissible) :
    ∀ v, .setting .logFormat v ∈ items → (LogFormat.ofName? v).isSome := fun v hv => by
  cases h _ hv
  simp

theorem value?_concat_of_ne {s t : Setting} (h : t ≠ s) (items : List Item) (value : String) :
    value? s (items ++ [.setting t value]) = value? s items := by
  rw [value?_append, value?_setting, if_neg h, Option.or_none]

theorem contains_switch_ofItems (items : List Item) (s : Switch) :
    (ofItems items).switches.contains s = true ↔ .switch s ∈ items := by
  have hbeq (a b : Switch) : (a == b) = true ↔ a = b := by cases a <;> cases b <;> decide
  have hitem (item : Item) : item.switch? = some s ↔ item = .switch s := by
    cases item <;> simp [Item.switch?]
  rw [List.contains_iff_exists_mem_beq]
  simp [hbeq, ofItems, List.mem_filterMap, hitem]

/-- A setting is added to what items give, unless they give it. -/
theorem set_ofItems {items : List Item} {s : Setting} {value : String}
    (h : ∀ i ∈ items ++ [.setting s value], i.Admissible) :
    (ofItems items).set s value =
      if value? s items = none then .ok (ofItems (items ++ [.setting s value]))
      else .error .givenTwice := by
  have hkept : ofItems (items ++ [.setting s value]) = { ofItems items with
      roleDir := (value? .roleDir (items ++ [.setting s value])).bind path?
      servicesFile := (value? .servicesFile (items ++ [.setting s value])).bind path?
      layout := (value? .layout (items ++ [.setting s value])).bind some
      level := (value? .level (items ++ [.setting s value])).bind Journal.Level.ofName?
      logFormat := (value? .logFormat (items ++ [.setting s value])).bind LogFormat.ofName? } := by
    simp [ofItems, Arguments.operands, Item.switch?, Item.operand?]
  rw [hkept]
  -- The other settings keep their values.
  cases s with
  | roleDir =>
    simp only [value?_concat_of_ne, ne_eq, reduceCtorEq, not_false_eq_true]
    exact once_bind (isSome_path? h _) fun path => { ofItems items with roleDir := path }
  | servicesFile =>
    simp only [value?_concat_of_ne, ne_eq, reduceCtorEq, not_false_eq_true]
    exact once_bind (isSome_path? h _) fun path => { ofItems items with servicesFile := path }
  | layout =>
    simp only [value?_concat_of_ne, ne_eq, reduceCtorEq, not_false_eq_true]
    exact once_bind (fun _ _ => rfl) fun program => { ofItems items with layout := program }
  | level =>
    simp only [value?_concat_of_ne, ne_eq, reduceCtorEq, not_false_eq_true]
    exact once_bind (isSome_level h) fun level => { ofItems items with level := level }
  | logFormat =>
    simp only [value?_concat_of_ne, ne_eq, reduceCtorEq, not_false_eq_true]
    exact once_bind (isSome_logFormat h) fun format => { ofItems items with logFormat := format }

/-- One more item is added to what items give, unless it gives again what can be given once. -/
theorem add_ofItems {items : List Item} {item : Item} (hgiven : GivenOnce items)
    (h : ∀ i ∈ items ++ [item], i.Admissible) :
    (ofItems items).add item =
      if GivenOnce (items ++ [item]) then .ok (ofItems (items ++ [item]))
      else .error .givenTwice := by
  cases item with
  | operand path =>
    have hplain : Item.IsPlain path := by
      cases h (.operand path) (by simp) with
      | operand hplain => exact hplain
    have honce : GivenOnce (items ++ [.operand path]) :=
      (givenOnce_concat items _).mpr ⟨hgiven, nofun⟩
    rw [if_pos honce, add, addOperand, path?_of_isPlain hplain]
    simp [ofItems, value?_append, Arguments.operands, Item.switch?, Item.operand?]
  | setting s value =>
    rw [add, set_ofItems h]
    simp only [givenOnce_concat_setting, hgiven, true_and]
  | switch s =>
    rw [add, turnOn]
    simp only [givenOnce_concat_switch, hgiven, true_and, contains_switch_ofItems]
    by_cases hmem : .switch s ∈ items
    · simp [hmem]
    · simp [hmem, ofItems, value?_append, Arguments.operands, Item.switch?, Item.operand?]

/-- Items give what stands on them if nothing is given twice, and else the second one is an error. -/
theorem foldlM_add {items : List Item} (h : ∀ item ∈ items, item.Admissible) :
    items.foldlM add nothing =
      if GivenOnce items then .ok (ofItems items) else .error .givenTwice := by
  induction items using List.reverseRecOn with
  | nil => rfl
  | append_singleton items item ih =>
    have hitems := ih fun i hi => h i (List.mem_append_left _ hi)
    rw [List.foldlM_append, hitems]
    by_cases hgiven : GivenOnce items
    · rw [if_pos hgiven]
      change (List.foldlM add (ofItems items) [item]) = _
      rw [List.foldlM_cons, add_ofItems hgiven h]
      split <;> rfl
    · have htwice : ¬ GivenOnce (items ++ [item]) := fun honce =>
        hgiven ((givenOnce_concat items item).mp honce).1
      rw [if_neg hgiven, if_neg htwice]
      rfl

end Given

end RoleChart
