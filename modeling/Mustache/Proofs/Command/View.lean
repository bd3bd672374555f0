import Mustache.Command.Run
import Mustache.Proofs.Influence

/-!
# What can be seen of the files

The command does not change a file before there is a text to be written, so what the text is, or
why there is none, is a matter of what can be seen of the files at the start (`View`), whatever the
dialect is that they are written in. Each step has a result of its own. The first one that fails
keeps the template from being rendered (`View.failures`), and of partials with the same name the
last one counts (`View.Extends`).

* `View.settings_of_file`, `View.content_eq`: settings and data by the steps that lead to them;
* `View.findSome?_failures`: which failure is the first one;
* `View.extends_of_addPartials`: what the data is with the partials in it;
* `View.Extends.render_eq`: it does not matter how entries are kept.
-/

namespace Mustache.Command

/-! ## What is seen -/

/-- What can be seen of a file system: the text in each file, or why there is none, and which
    paths name files. -/
structure View where
  read : String → Except FileError String
  isFile : String → Bool

/-- What can be seen of a file system in some state. -/
def FileSystem.view {σ : Type} (fs : FileSystem σ) (store : σ) : View :=
  ⟨fs.read store, fs.isFile store⟩

/-- Why something has failed. -/
def failure? {α : Type} : Except Failure α → Option Failure
  | .ok _ => none
  | .error failure => some failure

namespace View

variable (dialect : Dialect) (v : View) (a : Arguments)

/-- The file with the settings: the one asked for, or else the one at hand. -/
def settingsFile? : Option String :=
  match a.settings with
  | some file => some file
  | none => if v.isFile defaultSettingsFile then some defaultSettingsFile else none

/-- The settings in their file, or the defaults. The file must be read, and the settings must be
    written properly and be usable. -/
def settings : Except Failure Settings :=
  match v.settingsFile? a with
  | none => .ok {}
  | some file =>
    match v.read file with
    | .error e => .error (.settings file (.unreadable e))
    | .ok text =>
      match dialect.settings text with
      | .error reason => .error (.settings file (.malformed reason))
      | .ok settings =>
        match settings.fault? with
        | some fault => .error (.settings file (.invalid fault))
        | none => .ok settings

/-- The format of the data. -/
def format : Except Failure DataFormat :=
  match DataFormat.ofPath? a.data with
  | none => .error (.data a.data (.dataUnsupported a.data))
  | some format => .ok format

/-- The text that the data is in. -/
def dataText : Except Failure String :=
  (v.read a.data).mapError fun e => .data a.data (.file e)

/-- The data in a text, which must be written properly. -/
def content (format : DataFormat) (text : String) : Except Failure Context :=
  match format with
  | .json =>
    match dialect.json text with
    | .error reason => .error (.data a.data (.dataMalformed a.data reason))
    | .ok value => .ok value.toContext
  | .toml =>
    match dialect.toml text with
    | .error reason => .error (.data a.data (.dataMalformed a.data reason))
    | .ok entries => .ok ((Toml.Value.table entries).toContext dialect.dateText)

/-- The data, without partials. -/
def data : Except Failure Context := do
  let format ← format a
  let text ← v.dataText a
  content dialect a format text

/-- The body of a partial. -/
def body (file : String) : Except Failure String :=
  (v.read file).mapError (.readPartial file)

/-- Partials can only be put into an object. -/
def roomFor (name : String) : Context → Except Failure Unit
  | .object _ => .ok ()
  | _ => .error (.addPartial (.rootNotObject name))

/-- The template. -/
def template : Except Failure String :=
  (v.read a.template).mapError (.readTemplate a.template)

/-- What partials fail with: each must be read, and then there must be room for it. -/
def partialFailures (data : Context) (partials : List (String × String)) :
    List (Option Failure) :=
  partials.flatMap fun (name, file) => [failure? (v.body file), failure? (roomFor name data)]

/-- What the steps before the rendering fail with, in the order in which they are made. -/
def failures : List (Option Failure) :=
  [failure? (v.settings dialect a), failure? (format a), failure? (v.dataText a),
      failure? (v.data dialect a)] ++
    (match v.data dialect a with
      | .ok data => v.partialFailures data a.partials
      | .error _ => []) ++
    [failure? (v.template a)]

/-- The data with partials in it. It is an object with the body of the last partial of each name,
    and the entries of the data under all other names. -/
inductive Extends (partials : List (String × String)) : Context → Context → Prop
  | unchanged {data : Context} : partials = [] → Extends partials data data
  | entries {entries entries' : List (String × Context)} :
      (∀ name, Entries.get? entries' name =
        match partials.reverse.lookup name with
        | some file => (v.body file).toOption.map .string
        | none => Entries.get? entries name) →
      Extends partials (.object entries) (.object entries')

/-! ## What comes of it -/

/-- The data with one more partial in it. -/
def addPartial (data : Context) (name file : String) : Except Failure Context := do
  let body ← v.body file
  (data.insertPartial name body).mapError .addPartial

/-- The data with some more partials in it. -/
def addPartials (data : Context) (partials : List (String × String)) : Except Failure Context :=
  partials.foldlM (fun data (name, file) => v.addPartial data name file) data

/-- What the rendering takes: the settings, the data with its partials, and the template. -/
def ingredients : Except Failure (Settings × Context × String) := do
  let settings ← v.settings dialect a
  let data ← v.data dialect a
  let root ← v.addPartials data a.partials
  let template ← v.template a
  return (settings, root, template)

/-- The text that is asked for. -/
def text : Except Failure String := do
  let (settings, root, template) ← v.ingredients dialect a
  (render settings template root).mapError (.render a.template)

end View

/-! ## Settings and data -/

namespace View

variable {dialect : Dialect} {v : View} {a : Arguments}

theorem settings_of_none (h : v.settingsFile? a = none) : v.settings dialect a = .ok {} := by
  rw [settings, h]

/-- Settings are read, and then they must make sense. -/
theorem settings_of_file {file : String} (h : v.settingsFile? a = some file) :
    v.settings dialect a = ((v.read file).mapError .unreadable >>= Settings.parse dialect).mapError
      (.settings file) := by
  rw [settings, h]
  dsimp only
  cases v.read file with
  | error e => rfl
  | ok text =>
    show _ = (Settings.parse dialect text).mapError _
    rw [Settings.parse]
    dsimp only
    cases dialect.settings text with
    | error reason => rfl
    | ok settings =>
      dsimp only
      cases settings.fault? <;> rfl

theorem content_eq (format : DataFormat) (text : String) :
    content dialect a format text = (format.parse dialect a.data text).mapError (.data a.data) := by
  cases format with
  | json =>
    rw [content, DataFormat.parse]
    cases dialect.json text <;> rfl
  | toml =>
    rw [content, DataFormat.parse]
    cases dialect.toml text <;> rfl

/-! ## Partials -/

section

variable {partials : List (String × String)} {data root root' : Context}
  {entries : List (String × Context)}

/-- What is found in an object with partials in it. -/
theorem Extends.exists_get?_eq (h : v.Extends partials (.object entries) root) :
    ∃ entries', root = .object entries' ∧ ∀ name, Entries.get? entries' name =
      match partials.reverse.lookup name with
      | some file => (v.body file).toOption.map .string
      | none => Entries.get? entries name := by
  cases h with
  | unchanged hnil =>
    subst hnil
    exact ⟨entries, rfl, fun _ => rfl⟩
  | entries hget => exact ⟨_, rfl, hget⟩

/-- With the same partials in it, the same data has the same renderings. -/
theorem Extends.render_eq (h : v.Extends partials data root) (h' : v.Extends partials data root')
    (settings : Settings) (template : String) :
    render settings template root = render settings template root' := by
  cases data with
  | object entries =>
    obtain ⟨found, rfl, hfound⟩ := h.exists_get?_eq
    obtain ⟨found', rfl, hfound'⟩ := h'.exists_get?_eq
    exact Render.render_eq_of_get?_eq settings template fun name =>
      (hfound name).trans (hfound' name).symm
  | array | scalar =>
    cases h
    cases h'
    rfl

/-- A partial is put in before those that follow, which may take its place. -/
theorem Extends.cons {name file body : String} (hbody : v.body file = .ok body)
    (h : v.Extends partials (.object (Entries.insert name (.string body) entries)) root) :
    v.Extends ((name, file) :: partials) (.object entries) root := by
  obtain ⟨found, rfl, hfound⟩ := h.exists_get?_eq
  refine .entries fun other => ?_
  rw [hfound, List.reverse_cons, List.lookup_append, List.lookup_singleton]
  cases partials.reverse.lookup other with
  | some later => rfl
  | none =>
    by_cases heq : other = name
    · subst heq
      simp [hbody, Except.toOption]
    · simp [heq, Entries.get?_insert_of_ne heq]

theorem extends_of_addPartials (h : v.addPartials data partials = .ok root) :
    v.Extends partials data root := by
  induction partials generalizing data with
  | nil =>
    cases h
    exact .unchanged rfl
  | cons first rest ih =>
    obtain ⟨name, file⟩ := first
    rw [addPartials, List.foldlM_cons] at h
    obtain ⟨data', hadd, h⟩ := Template.bind_eq_ok_iff.1 h
    obtain ⟨body, hbody, hadd⟩ := Template.bind_eq_ok_iff.1 hadd
    cases data with
    | array | scalar => cases hadd
    | object entries =>
      cases hadd
      exact (ih h).cons hbody

end

/-! ## Failures -/

/-- Partials are put into the data one by one until one fails. -/
theorem failure?_addPartials (partials : List (String × String)) (data : Context) :
    failure? (v.addPartials data partials) =
      (v.partialFailures data partials).findSome? id := by
  induction partials generalizing data with
  | nil => rfl
  | cons first rest ih =>
    obtain ⟨name, file⟩ := first
    rw [addPartials, List.foldlM_cons, partialFailures, List.flatMap_cons, ← partialFailures]
    dsimp only
    rw [addPartial]
    cases v.body file with
    | error failure => rfl
    | ok body =>
      cases data with
      -- An object is still one with the partial in it.
      | object entries => exact ih _
      | array | scalar => rfl

/-- If there is no data, one of three steps has failed. -/
theorem findSome?_data :
    [failure? (format a), failure? (v.dataText a), failure? (v.data dialect a)].findSome? id =
      failure? (v.data dialect a) := by
  rw [data]
  cases format a with
  | error failure => rfl
  | ok format =>
    cases v.dataText a with
    | error failure => rfl
    | ok text =>
      show [none, none, failure? (content dialect a format text)].findSome? id =
        failure? (content dialect a format text)
      cases content dialect a format text <;> rfl

/-- The first failure in order is what the rendering is kept from by. -/
theorem findSome?_failures :
    (v.failures dialect a).findSome? id = failure? (v.ingredients dialect a) := by
  rw [failures, ingredients]
  cases v.settings dialect a with
  | error failure => rfl
  | ok settings =>
    show (([failure? (format a), failure? (v.dataText a), failure? (v.data dialect a)] ++ _) ++
      _).findSome? id = failure? (v.data dialect a >>= _)
    rw [List.findSome?_append, List.findSome?_append, findSome?_data]
    cases v.data dialect a with
    | error failure => rfl
    | ok data =>
      show ((v.partialFailures data a.partials).findSome? id).or _ =
        failure? (v.addPartials data a.partials >>= _)
      rw [← failure?_addPartials]
      cases v.addPartials data a.partials with
      | error failure => rfl
      | ok root => cases v.template a <;> rfl

end View

end Mustache.Command
