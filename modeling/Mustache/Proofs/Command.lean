import Mustache.Proofs.Command.View

/-!
# What the command does

Until there is a text to be written, the command does nothing but look at files, and tell what
it does (`Yields`). It comes to what is seen of the files at the start, and only then is anything
written. None of this depends on the dialect that the files are written in.

* `yields_compose`: the command comes to the text that what is seen comes to;
* `output_is_all_or_nothing`: what the command fails with, and what it writes if it does not.
-/

namespace Mustache.Command

/-! ## Looking at files -/

section

variable {σ : Type} (fs : FileSystem σ) (store : σ) {α β : Type}

/-- The result is there without anything being changed. -/
def Sees (x : StateM (Outcome σ) α) (a : α) : Prop :=
  ∀ o : Outcome σ, o.store = store → x.run o = (a, o)

/-- There is a result, and nothing has been changed but what has been told. -/
def Yields (x : ExceptT Failure (StateM (Outcome σ)) α) (r : Except Failure α) : Prop :=
  ∀ o : Outcome σ, o.store = store → ∃ messages, x.run.run o = (r, { o with messages })

variable {fs store}

theorem Sees.bind {x : StateM (Outcome σ) α} {f : α → StateM (Outcome σ) β} {a : α} {b : β}
    (hx : Sees store x a) (hf : Sees store (f a) b) : Sees store (x >>= f) b := by
  intro o ho
  rw [StateT.run_bind, hx o ho]
  exact hf o ho

theorem Sees.yields {x : StateM (Outcome σ) α} {a : α} (h : Sees store x a) :
    Yields store (ExceptT.lift x : ExceptT Failure (StateM (Outcome σ)) α) (.ok a) := by
  intro o ho
  refine ⟨o.messages, ?_⟩
  rw [ExceptT.run_lift, StateT.run_map, h o ho]
  rfl

theorem Yields.pure (a : α) :
    Yields store (Pure.pure a : ExceptT Failure (StateM (Outcome σ)) α) (.ok a) :=
  fun o _ => ⟨o.messages, rfl⟩

theorem Yields.bind {x : ExceptT Failure (StateM (Outcome σ)) α}
    {f : α → ExceptT Failure (StateM (Outcome σ)) β} {r : Except Failure α}
    {g : α → Except Failure β} (hx : Yields store x r)
    (hf : ∀ a, r = .ok a → Yields store (f a) (g a)) : Yields store (x >>= f) (r >>= g) := by
  intro o ho
  obtain ⟨messages, hrun⟩ := hx o ho
  rw [ExceptT.run_bind, StateT.run_bind, hrun]
  cases r with
  | error failure => exact ⟨messages, rfl⟩
  | ok a => exact hf a rfl { o with messages } ho

/-- What does not fail may be followed by something else. -/
theorem Yields.andThen {x : ExceptT Failure (StateM (Outcome σ)) α}
    {f : α → ExceptT Failure (StateM (Outcome σ)) β} {a : α} {r : Except Failure β}
    (hx : Yields store x (.ok a)) (hf : Yields store (f a) r) : Yields store (x >>= f) r := by
  refine hx.bind (g := fun _ => r) fun b hb => ?_
  cases hb
  exact hf

/-! ## The steps -/

variable {dialect : Dialect} {a : Arguments}

theorem yields_tell (message : String) : Yields store (tell fs.host a message) (.ok ()) := by
  rw [tell]
  split
  · exact fun o _ => ⟨o.messages ++ (message ++ "\n"), rfl⟩
  · exact .pure ()

theorem yields_orFail {ε : Type} (failure : ε → Failure) (x : Except ε α) :
    Yields store (orFail failure x) (x.mapError failure) :=
  match x with
  | .ok a => .pure a
  | .error _ => fun o _ => ⟨o.messages, rfl⟩

theorem sees_read (path : String) : Sees store (fs.host.read path) (fs.read store path) := by
  rintro o rfl
  rfl

theorem sees_isFile (path : String) : Sees store (fs.host.isFile path) (fs.isFile store path) := by
  rintro o rfl
  rfl

theorem sees_settingsFile? :
    Sees store (settingsFile? fs.host a) ((fs.view store).settingsFile? a) := by
  rw [settingsFile?, View.settingsFile?]
  cases a.settings with
  | some file => exact fun _ _ => rfl
  | none => exact (sees_isFile _).bind fun _ _ => rfl

/-- A text is read, and then it is understood. -/
theorem sees_understood {ε : Type} (unread : FileError → ε) (understand : String → Except ε β)
    (path : String) :
    Sees store (do
      match ← fs.host.read path with
      | .error e => return .error (unread e)
      | .ok text => return understand text)
    ((fs.read store path).mapError unread >>= understand) := by
  refine (sees_read path).bind ?_
  cases fs.read store path <;> exact fun _ _ => rfl

theorem sees_loadSettings (file : String) :
    Sees store (loadSettings dialect fs.host.read file)
      ((fs.read store file).mapError .unreadable >>= Settings.parse dialect) :=
  sees_understood _ _ file

theorem yields_readSettings :
    Yields store (readSettings dialect fs.host a) ((fs.view store).settings dialect a) := by
  refine sees_settingsFile?.yields.andThen ?_
  cases hfile : (fs.view store).settingsFile? a with
  | none =>
    rw [View.settings_of_none hfile]
    exact .pure _
  | some file =>
    rw [View.settings_of_file hfile]
    exact (yields_tell _).andThen ((sees_loadSettings file).yields.andThen (yields_orFail _ _))

/-- Data is loaded if its format is known, its file can be read, and there is data in it. -/
theorem exists_sees_loadData :
    ∃ result, Sees store (loadData dialect fs.host.read a.data) result ∧
      result.mapError (.data a.data) = (fs.view store).data dialect a := by
  rw [View.data, View.format, loadData]
  cases DataFormat.ofPath? a.data with
  | none => exact ⟨.error (.dataUnsupported a.data), fun _ _ => rfl, rfl⟩
  | some format =>
    refine ⟨_, sees_understood .file (format.parse dialect a.data) a.data, ?_⟩
    show _ = (fs.read store a.data).mapError _ >>= fun text => View.content dialect a format text
    cases fs.read store a.data with
    | error e => rfl
    | ok text => exact (View.content_eq format text).symm

theorem yields_readPartial (data : Context) (name file : String) :
    Yields store (readPartial fs.host a data name file)
      ((fs.view store).addPartial data name file) := by
  refine (yields_tell _).andThen ((sees_read file).yields.andThen ?_)
  exact (yields_orFail _ _).bind fun body _ => yields_orFail _ _

theorem yields_readPartials (partials : List (String × String)) (data : Context) :
    Yields store
      (partials.foldlM (fun data (name, file) => readPartial fs.host a data name file) data)
      ((fs.view store).addPartials data partials) := by
  induction partials generalizing data with
  | nil => exact .pure data
  | cons first rest ih =>
    rw [List.foldlM_cons, View.addPartials, List.foldlM_cons]
    exact (yields_readPartial data first.1 first.2).bind fun data _ => ih data

theorem yields_readData :
    Yields store (readData dialect fs.host a) ((fs.view store).data dialect a >>= fun data =>
      (fs.view store).addPartials data a.partials) := by
  obtain ⟨result, hsees, hresult⟩ :
      ∃ result, Sees store (loadData dialect fs.host.read a.data) result ∧ _ := exists_sees_loadData
  rw [← hresult]
  refine (yields_tell _).andThen (hsees.yields.andThen ?_)
  exact (yields_orFail _ _).bind fun data _ => yields_readPartials a.partials data

/-- The command comes to the text that is asked for, or to a failure, and writes nothing yet. -/
theorem yields_compose :
    Yields store (compose dialect fs.host a) ((fs.view store).text dialect a) := by
  rw [View.text, View.ingredients]
  simp only [bind_assoc, pure_bind]
  refine yields_readSettings.bind fun settings _ => ?_
  rw [← bind_assoc]
  refine yields_readData.bind fun root _ => ?_
  refine (sees_read a.template).yields.andThen ?_
  exact (yields_orFail _ _).bind fun template _ => yields_orFail _ _

end

/-! ## Outputs -/

section

variable {σ : Type} (dialect : Dialect) (fs : FileSystem σ) (a : Arguments) (store : σ)

/-- The command fails, without having changed a file or shown anything. -/
structure Aborts (failure : Failure) : Prop where
  result_eq : (fillOn dialect fs a store).1 = .error failure
  store_eq : (fillOn dialect fs a store).2.store = store
  output_eq : (fillOn dialect fs a store).2.output = ""

/-- The command writes a text and does nothing else: to the file that is asked for, without
    showing anything, or else to the output, without changing a file. It fails if this fails. -/
structure Writes (text : String) : Prop where
  result_eq : (fillOn dialect fs a store).1 = match a.output with
    | some file => (fs.write store file text).1.mapError .write
    | none => (fs.display store text).mapError fun interruption => .write interruption.reason
  store_eq : (fillOn dialect fs a store).2.store = match a.output with
    | some file => (fs.write store file text).2
    | none => store
  output_eq : (fillOn dialect fs a store).2.output = match a.output with
    | some _ => ""
    | none =>
      match fs.display store text with
      | .ok () => text
      | .error interruption => interruption.shown

variable {dialect fs a store}

/-- Up to the writing of a text, only messages have been added. -/
theorem exists_fillOn_eq (dialect : Dialect) (fs : FileSystem σ) (a : Arguments) (store : σ) :
    ∃ messages, fillOn dialect fs a store = match (fs.view store).text dialect a with
      | .error failure => (.error failure, ⟨store, "", messages⟩)
      | .ok text => (deliver fs.host a text).run.run ⟨store, "", messages⟩ := by
  have hcompose : Yields store (compose dialect fs.host a) ((fs.view store).text dialect a) :=
    yields_compose
  obtain ⟨messages, hrun⟩ := hcompose ⟨store, "", ""⟩ rfl
  refine ⟨messages, ?_⟩
  rw [fillOn, fill, ExceptT.run_bind, StateT.run_bind, hrun]
  cases (fs.view store).text dialect a <;> rfl

theorem aborts_of_text {failure : Failure} (h : (fs.view store).text dialect a = .error failure) :
    Aborts dialect fs a store failure := by
  obtain ⟨messages, hfill⟩ := exists_fillOn_eq dialect fs a store
  rw [h] at hfill
  constructor <;> rw [hfill]

theorem run_orFail {α ε : Type} (failure : ε → Failure) (x : StateM (Outcome σ) (Except ε α))
    (o : Outcome σ) :
    (do orFail failure (← x) : ExceptT Failure (StateM (Outcome σ)) α).run.run o =
      ((x.run o).1.mapError failure, (x.run o).2) := by
  rw [ExceptT.run_bind, StateT.run_bind]
  show (orFail failure (x.run o).1 : ExceptT Failure (StateM (Outcome σ)) α).run.run _ = _
  cases (x.run o).1 <;> rfl

theorem run_display (text : String) (o : Outcome σ) :
    (fs.host.display text).run o = match fs.display o.store text with
      | .ok () => (.ok (), { o with output := o.output ++ text })
      | .error interruption =>
        (.error interruption.reason, { o with output := o.output ++ interruption.shown }) := by
  show StateT.run (match fs.display o.store text with
    | .ok () => _
    | .error interruption => _) o = _
  cases fs.display o.store text <;> rfl

/-- What is shown is not written to a file. -/
theorem run_deliver (houtput : a.output = none) (text : String) (o : Outcome σ) :
    (deliver fs.host a text).run.run o = match fs.display o.store text with
      | .ok () => (.ok (), { o with output := o.output ++ text })
      | .error interruption =>
        (.error (.write interruption.reason),
          { o with output := o.output ++ interruption.shown }) := by
  rw [deliver, houtput]
  refine (run_orFail .write (fs.host.display text) o).trans ?_
  rw [run_display]
  cases fs.display o.store text <;> rfl

/-- What is written to a file may be told of, but it is not shown. -/
theorem exists_run_deliver {file : String} (houtput : a.output = some file) (text : String)
    (o : Outcome σ) : ∃ messages, (deliver fs.host a text).run.run o =
      ((fs.write o.store file text).1.mapError .write,
        ⟨(fs.write o.store file text).2, o.output, messages⟩) := by
  have htell : Yields (fs.write o.store file text).2
      (do orFail .write (fs.write o.store file text).1; tell fs.host a s!"✓ Wrote {file}")
      ((fs.write o.store file text).1.mapError .write >>= fun _ => .ok ()) :=
    (yields_orFail _ _).bind fun _ _ => yields_tell _
  obtain ⟨messages, hrun⟩ := htell { o with store := (fs.write o.store file text).2 } rfl
  refine ⟨messages, ?_⟩
  rw [deliver, houtput]
  refine Eq.trans hrun ?_
  cases (fs.write o.store file text).1 <;> rfl

theorem writes_of_text {text : String} (h : (fs.view store).text dialect a = .ok text) :
    Writes dialect fs a store text := by
  obtain ⟨messages, hfill⟩ := exists_fillOn_eq dialect fs a store
  rw [h] at hfill
  cases houtput : a.output with
  | none =>
    have hfill := hfill.trans (run_deliver houtput text ⟨store, "", messages⟩)
    simp only [String.empty_append] at hfill
    constructor <;> rw [hfill, houtput] <;> cases fs.display store text <;> rfl
  | some file =>
    obtain ⟨told, hdeliver⟩ := exists_run_deliver houtput text ⟨store, "", messages⟩
    have hfill := hfill.trans hdeliver
    constructor <;> rw [hfill, houtput]

/-- On whatever files it is run, in whatever dialect they are written, the command fails with the
    first failure, in order, of the steps before the rendering. If there is none, the template is
    rendered with the settings and with the data that has the partials in it; the command fails as
    this does, or writes what this gives. It has not changed a file or shown anything if it fails
    up to then. -/
theorem output_is_all_or_nothing (dialect : Dialect) (fs : FileSystem σ) (a : Arguments)
    (store : σ) :
    let v := fs.view store
    match (v.failures dialect a).findSome? id with
    | some failure => Aborts dialect fs a store failure
    | none => ∃ settings data template, v.settings dialect a = .ok settings ∧
        v.data dialect a = .ok data ∧ v.template a = .ok template ∧
        (∃ root, v.Extends a.partials data root) ∧
        ∀ root, v.Extends a.partials data root →
          match render settings template root with
          | .error e => Aborts dialect fs a store (.render a.template e)
          | .ok text => Writes dialect fs a store text := by
  intro v
  rw [View.findSome?_failures]
  cases hready : v.ingredients dialect a with
  | error failure => exact aborts_of_text (by rw [View.text, hready]; rfl)
  | ok ready =>
    obtain ⟨settings, hsettings, hrest⟩ := Template.bind_eq_ok_iff.1 hready
    obtain ⟨data, hdata, hrest⟩ := Template.bind_eq_ok_iff.1 hrest
    obtain ⟨root, hroot, hrest⟩ := Template.bind_eq_ok_iff.1 hrest
    obtain ⟨template, htemplate, hrest⟩ := Template.bind_eq_ok_iff.1 hrest
    cases hrest
    have hextends : v.Extends a.partials data root := View.extends_of_addPartials hroot
    refine ⟨settings, data, template, hsettings, hdata, htemplate, ⟨root, hextends⟩, ?_⟩
    intro root' hroot'
    have htext :
        v.text dialect a = (render settings template root').mapError (.render a.template) := by
      rw [View.text, hready, hroot'.render_eq hextends]
      rfl
    cases hrender : render settings template root' with
    | error e => exact aborts_of_text (htext.trans (by rw [hrender]; rfl))
    | ok text => exact writes_of_text (htext.trans (by rw [hrender]; rfl))

end

/-- The second of two partials with a name is used. Settings that are not there, are no text or are
    not written properly, and a template that is not there, are different failures. -/
theorem output_is_all_or_nothing_store :
    let store : Store := ⟨[(["s"], .file (.text "")), (["d.toml"], .file (.text "")),
      (["b"], .file (.text "B")), (["c"], .file (.text "C")), (["x"], .file .noText),
      (["t"], .file (.text "\x7b\x7b>p\x7d\x7d"))]⟩
    let a : Arguments := ⟨"d.toml", "t", some "o", [("p", "b"), ("p", "c")], some "s", false⟩
    Writes .standard .store a store "C" ∧
    Aborts .standard .store { a with settings := some "r" } store
      (.settings "r" (.unreadable .notFound)) ∧
    Aborts .standard .store { a with settings := some "x" } store
      (.settings "x" (.unreadable .notText)) ∧
    Aborts .standard .store { a with settings := some "b" } store
      (.settings "b" (.malformed "not a TOML document with settings")) ∧
    Aborts .standard .store { a with template := "u" } store (.readTemplate "u" .notFound) := by
  intro store a
  have hfailures (a' : Arguments) (failure : Failure)
      (h : ((FileSystem.store.view store).failures .standard a').findSome? id = some failure) :
      Aborts .standard .store a' store failure := by
    have habort := output_is_all_or_nothing .standard .store a' store
    simp only [h] at habort
    exact habort
  refine ⟨?_, hfailures _ _ (by decide +kernel), hfailures _ _ (by decide +kernel),
    hfailures _ _ (by decide +kernel), hfailures _ _ (by decide +kernel)⟩
  have hnone : ((FileSystem.store.view store).failures .standard a).findSome? id = none := by
    decide +kernel
  have hwrite := output_is_all_or_nothing .standard .store a store
  simp only [hnone] at hwrite
  obtain ⟨settings, data, template, hsettings, hdata, htemplate, -, hrender⟩ := hwrite
  have hdefaults : ((FileSystem.store.view store).settings .standard a).toOption = some {} := by
    decide +kernel
  have hempty : ((FileSystem.store.view store).data .standard a).toOption.bind
      (·.entries?.map (·.length)) = some 0 := by
    decide +kernel
  have htext : ((FileSystem.store.view store).template a).toOption =
      some "\x7b\x7b>p\x7d\x7d" := by
    decide +kernel
  have hb : (FileSystem.store.view store).body "b" = .ok "B" := by cbv
  have hc : (FileSystem.store.view store).body "c" = .ok "C" := by cbv
  rw [hsettings] at hdefaults
  rw [hdata] at hempty
  rw [htemplate] at htext
  cases hdefaults
  cases htext
  cases data with
  | array | scalar => cases hempty
  | object entries =>
    cases entries with
    | cons => cases hempty
    | nil =>
      have hrendered := hrender _ (.cons hb (.cons hc (.unchanged rfl)))
      have hpage : render {} "\x7b\x7b>p\x7d\x7d" (.object (Entries.insert "p" (.string "C")
          (Entries.insert "p" (.string "B") []))) = .ok "C" := by
        rw [render, Render.renderAt_eq_evaluateAt]
        cbv
      rw [hpage] at hrendered
      exact hrendered

end Mustache.Command
