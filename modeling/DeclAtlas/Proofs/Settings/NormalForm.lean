import DeclAtlas.CommandLine.Run
import DeclAtlas.Proofs.Text.Words
import Mathlib.Data.List.TakeWhile

/-!
# The normal form of settings

Normalizing settings trims their texts, drops the items that are nothing but blanks, and brings
the number of aliases into its bounds. What comes out is a normal form: normalizing again leaves
it as it is. So it does not matter that settings from a document are normalized when they are
read and once more when the command line has changed them. The second time does all the work,
for what an override keeps is normalized then, and what it replaces or adds is not touched
before.

`Trims` and `TrimsAll` say what trimming is without saying how it is done, and `NormalizesTo`
says with them what becomes of each setting.

## Main results

* `normalizesTo_normalize`: what normalizing does to each setting.
* `IsNormal.normalize_eq_self`: settings in normal form stay as they are.
* `normalize_override_normalize`: normalizing before an override changes nothing.
* `normalize_isNormalForm`: all of this, for settings and for the program that loads them.
-/

namespace DeclAtlas

/-! ## Trimming -/

namespace Text

/-- `t` is what is left of `s` without the blanks at its ends. -/
structure Trims (s t : String) : Prop where
  trimmed : IsTrimmed t.toList
  within : ∃ before after : List Char, s.toList = before ++ t.toList ++ after ∧
    ∀ c ∈ before ++ after, isBlank c = true

/-- `ts` are the texts `ss` without the blanks at their ends, in the same order, and without
those that are nothing but blanks. -/
inductive TrimsAll : List String → List String → Prop where
  | nil : TrimsAll [] []
  | keep {s t : String} {ss ts : List String} (hs : Trims s t) (hne : t ≠ "")
      (hr : TrimsAll ss ts) : TrimsAll (s :: ss) (t :: ts)
  | drop {s : String} {ss ts : List String} (hs : Trims s "") (hr : TrimsAll ss ts) :
      TrimsAll (s :: ss) ts

theorem trims_trim (s : String) : Trims s (trim s) := by
  have htoList : (trim s).toList = trimChars s.toList := String.toList_ofList
  refine ⟨htoList ▸ isTrimmed_trimChars _, s.toList.takeWhile isBlank,
    ((trimStart s.toList).reverse.takeWhile isBlank).reverse, ?_, ?_⟩
  · rw [htoList, List.append_assoc, trimChars, trimEnd, ← List.reverse_append,
      List.takeWhile_append_dropWhile, List.reverse_reverse, trimStart,
      List.takeWhile_append_dropWhile]
  · intro c hc
    rcases List.mem_append.1 hc with hc | hc
    · exact List.mem_takeWhile_imp hc
    · exact List.mem_takeWhile_imp (List.mem_reverse.1 hc)

theorem trim_eq_self {s : String} (h : IsTrimmed s.toList) : trim s = s := by
  rw [trim, h.trimChars_eq, String.ofList_toList]

theorem trim_trim (s : String) : trim (trim s) = trim s :=
  trim_eq_self (trims_trim s).trimmed

end Text

open Text (IsTrimmed Trims TrimsAll trim trims_trim trim_eq_self trim_trim)

namespace CompilerSettings

theorem trimsAll_trimAll (texts : List String) : TrimsAll texts (trimAll texts) := by
  induction texts with
  | nil => exact .nil
  | cons s rest ih =>
      have hs := trims_trim s
      by_cases hne : trim s = ""
      · have hdrop : trimAll (s :: rest) = trimAll rest := by simp [trimAll, hne]
        rw [hdrop]
        exact .drop (hne ▸ hs) ih
      · have hkeep : trimAll (s :: rest) = trim s :: trimAll rest := by simp [trimAll, hne]
        rw [hkeep]
        exact .keep hs hne ih

theorem trimAll_append (ss ts : List String) :
    trimAll (ss ++ ts) = trimAll ss ++ trimAll ts := by
  simp [trimAll]

theorem of_mem_trimAll {texts : List String} {t : String} (ht : t ∈ trimAll texts) :
    t ≠ "" ∧ IsTrimmed t.toList := by
  obtain ⟨hmem, hne⟩ := List.mem_filter.1 ht
  obtain ⟨s, -, rfl⟩ := List.mem_map.1 hmem
  exact ⟨by simpa using hne, (trims_trim s).trimmed⟩

theorem trimAll_eq_self {texts : List String}
    (h : ∀ t ∈ texts, t ≠ "" ∧ IsTrimmed t.toList) : trimAll texts = texts := by
  have hmap : texts.map trim = texts :=
    List.map_congr_left (fun t ht => trim_eq_self (h t ht).2) |>.trans (List.map_id texts)
  rw [trimAll, hmap, List.filter_eq_self]
  exact fun t ht => by simpa using (h t ht).1

theorem trimAll_trimAll (texts : List String) : trimAll (trimAll texts) = trimAll texts :=
  trimAll_eq_self fun _ => of_mem_trimAll

/-- A command as it is normalized: trimmed, and the usual one if nothing is left. -/
@[irreducible]
def commandOf (command : String) : String :=
  if trim command = "" then "clang" else trim command

theorem commandOf_isTrimmed (command : String) :
    commandOf command ≠ "" ∧ IsTrimmed (commandOf command).toList := by
  unfold commandOf
  split
  · refine ⟨by decide, ?_, ?_⟩
    · intro c hc
      cases hc
      rfl
    · intro c hc
      cases hc
      rfl
  · rename_i hne
    exact ⟨hne, (trims_trim _).trimmed⟩

theorem commandOf_eq_self {command : String} (hne : command ≠ "")
    (h : IsTrimmed command.toList) : commandOf command = command := by
  rw [commandOf, trim_eq_self h, if_neg hne]

theorem normalize_eq (s : CompilerSettings) :
    s.normalize = ⟨commandOf s.command, trimAll s.includePaths, trimAll s.extraFlags,
      trim s.standard⟩ := by
  simp only [normalize, commandOf]

end CompilerSettings

/-! ## Normal forms -/

namespace Settings

open CompilerSettings (trimAll trimAll_append trimAll_trimAll trimAll_eq_self of_mem_trimAll
  trimsAll_trimAll commandOf commandOf_eq_self commandOf_isTrimmed)

/-- Settings whose texts are trimmed, whose items are not empty, and whose number of aliases is
within its bounds. -/
structure IsNormal (s : Settings) : Prop where
  command : s.compiler.command ≠ "" ∧ IsTrimmed s.compiler.command.toList
  includePaths : ∀ p ∈ s.compiler.includePaths, p ≠ "" ∧ IsTrimmed p.toList
  extraFlags : ∀ f ∈ s.compiler.extraFlags, f ≠ "" ∧ IsTrimmed f.toList
  standard : IsTrimmed s.compiler.standard.toList
  maxAliasDepth : 1 ≤ s.survey.maxAliasDepth ∧ s.survey.maxAliasDepth ≤ 64

/-- `NormalizesTo s n`: `n` says what `s` says, in the normal form. -/
structure NormalizesTo (s n : Settings) : Prop where
  /-- A command of blanks is none, and the usual one is taken. -/
  command : ∃ t, Trims s.compiler.command t ∧
    n.compiler.command = if t = "" then "clang" else t
  includePaths : TrimsAll s.compiler.includePaths n.compiler.includePaths
  extraFlags : TrimsAll s.compiler.extraFlags n.compiler.extraFlags
  standard : Trims s.compiler.standard n.compiler.standard
  /-- A number out of bounds becomes the bound next to it. -/
  maxAliasDepth : n.survey.maxAliasDepth =
    if s.survey.maxAliasDepth < 1 then 1
    else if 64 < s.survey.maxAliasDepth then 64 else s.survey.maxAliasDepth
  modelMethods : n.survey.modelMethods = s.survey.modelMethods
  logLevel : n.logLevel = s.logLevel

theorem normalize_eq (s : Settings) :
    s.normalize = ⟨⟨commandOf s.compiler.command, trimAll s.compiler.includePaths,
      trimAll s.compiler.extraFlags, trim s.compiler.standard⟩, s.survey.normalize,
      s.logLevel⟩ := by
  rw [normalize, CompilerSettings.normalize_eq]

theorem normalizesTo_normalize (s : Settings) : s.NormalizesTo s.normalize := by
  obtain ⟨compiler, survey, level⟩ := s
  have hcommand : commandOf compiler.command =
      if trim compiler.command = "" then "clang" else trim compiler.command := by
    rw [commandOf]
  rw [normalize_eq]
  refine ⟨⟨trim compiler.command, trims_trim compiler.command, hcommand⟩,
    trimsAll_trimAll compiler.includePaths, trimsAll_trimAll compiler.extraFlags,
    trims_trim compiler.standard, ?_, rfl, rfl⟩
  simp only [SurveyOptions.normalize, SurveyOptions.minDepth, SurveyOptions.maxDepth]
  split
  · omega
  · split
    · omega
    · omega

theorem isNormal_normalize (s : Settings) : s.normalize.IsNormal := by
  rw [normalize_eq]
  exact ⟨commandOf_isTrimmed s.compiler.command, fun _ => of_mem_trimAll,
    fun _ => of_mem_trimAll, (trims_trim s.compiler.standard).trimmed,
    s.survey.normalize_bounds⟩

/-- Settings in their normal form stay as they are. -/
theorem IsNormal.normalize_eq_self {s : Settings} (h : s.IsNormal) : s.normalize = s := by
  obtain ⟨⟨hne, hcommand⟩, hpaths, hflags, hstandard, hdepth⟩ := h
  rw [normalize_eq, commandOf_eq_self hne hcommand, trimAll_eq_self hpaths,
    trimAll_eq_self hflags, trim_eq_self hstandard, SurveyOptions.normalize_eq_self hdepth]

/-- What is overridden may have been normalized before or not: what an override keeps comes to
the same, and what it replaces or adds is not changed by it. -/
theorem normalize_override_normalize (s : Settings) (o : Overrides) :
    (s.normalize.override o).normalize = (s.override o).normalize := by
  have hcommand : commandOf (o.command.getD (commandOf s.compiler.command)) =
      commandOf (o.command.getD s.compiler.command) := by
    cases o.command with
    | none =>
        obtain ⟨hne, htrimmed⟩ := commandOf_isTrimmed s.compiler.command
        exact commandOf_eq_self hne htrimmed
    | some command => rfl
  have hpaths : trimAll (trimAll s.compiler.includePaths ++ o.includePaths) =
      trimAll (s.compiler.includePaths ++ o.includePaths) := by
    rw [trimAll_append, trimAll_append, trimAll_trimAll]
  have hsurvey : (s.normalize.override o).survey.normalize =
      (s.override o).survey.normalize := by
    cases hdepth : o.maxAliasDepth with
    | none =>
        simp only [override, normalize, hdepth, Option.getD_none, SurveyOptions.normalize,
          SurveyOptions.minDepth, SurveyOptions.maxDepth, SurveyOptions.mk.injEq, and_true]
        omega
    | some depth =>
        simp only [override, normalize, hdepth, Option.getD_some, SurveyOptions.normalize]
  rw [normalize_eq (s.normalize.override o), hsurvey, normalize_eq (s.override o),
    normalize_eq s]
  simp only [override, hcommand, hpaths, trimAll_trimAll, trim_trim]

/-! ## Settings that are loaded -/

/-- The settings that a document describes, as they are written there. -/
def written? (text : String) : Option Settings := (Toml.Entries.ofText? text).bind ofEntries?

theorem ofText?_eq_written (text : String) : ofText? text = (written? text).map normalize := rfl

section Loading

variable {m : Type → Type} [Monad m] [Host m]

/-- The settings in a file, as they are written there. -/
def loadWritten (path : String) : m (Except SettingsError Settings) := do
  match ← Host.readText path with
  | .error e => return .error (.read path e)
  | .ok text =>
    match written? text with
    | some s => return .ok s
    | none => return .error (.parse path "not a settings document")

/-- The settings that count for a file or directory, as they are written. -/
def discoverWritten (start : String) : m (Except SettingsError Settings) := do
  match ← find? start with
  | none => return .ok {}
  | some path => loadWritten path

variable [LawfulMonad m]

theorem load_eq_written (path : String) :
    load (m := m) path = (·.map normalize) <$> loadWritten path := by
  unfold load loadWritten
  rw [map_bind]
  refine bind_congr fun r => ?_
  cases r with
  | error e => simp [Except.map]
  | ok text =>
      dsimp only
      rw [ofText?_eq_written]
      cases written? text with
      | none => simp [Except.map]
      | some s => simp [Except.map]

end Loading

end Settings

namespace CommandLine.Options

variable {m : Type → Type} [Monad m] [Host m]

/-- The settings that the options change, as they are written. -/
def written (o : Options) : m (Except SettingsError Settings) :=
  match o.config with
  | some path => Settings.loadWritten path
  | none => Settings.discoverWritten o.searchStart

/-- The program normalizes settings twice, and once would do: what counts is what is written
and what the options say in its place. -/
theorem settings_eq_written [LawfulMonad m] (o : Options) :
    o.settings (m := m) =
      (·.map fun s => (s.override o.overrides).normalize) <$> o.written := by
  have htwice (s : Settings) : (s.normalize.override o.overrides).normalize = _ :=
    s.normalize_override_normalize o.overrides
  unfold settings written
  cases o.config with
  | some path =>
      dsimp only
      rw [Settings.load_eq_written, bind_map_left, ← bind_pure_comp]
      refine bind_congr fun r => ?_
      cases r with
      | error e => rfl
      | ok s => simp [Except.map, htwice]
  | none =>
      dsimp only
      unfold Settings.discover Settings.discoverWritten
      rw [map_bind, map_bind, bind_assoc]
      refine bind_congr fun found => ?_
      cases found with
      | none => simp [Except.map]
      | some path =>
          dsimp only
          rw [Settings.load_eq_written]
          simp only [bind_pure_comp, Functor.map_map]
          congr 1
          funext r
          cases r with
          | error e => rfl
          | ok s => simp [Except.map, htwice]

end CommandLine.Options

/-- Settings have a normal form, and it does not matter how often and when they are brought
into it: before an override or not, in a document or in the program that loads it. -/
theorem Settings.normalize_isNormalForm :
    (∀ s : Settings, s.normalize.normalize = s.normalize ∧ s.normalize.IsNormal ∧
      s.NormalizesTo s.normalize ∧
      ∀ o : Overrides, (s.normalize.override o).normalize = (s.override o).normalize) ∧
    (∀ (text : String) (o : Overrides),
      (ofText? text).map (fun s => (s.override o).normalize) =
        (written? text).map fun s => (s.override o).normalize) ∧
    ∀ (m : Type → Type) [Monad m] [LawfulMonad m] [Host m] (o : CommandLine.Options),
      o.settings (m := m) =
        (·.map fun s => (s.override o.overrides).normalize) <$> o.written := by
  refine ⟨fun s => ?_, fun text o => ?_, fun m _ _ _ o => o.settings_eq_written⟩
  · exact ⟨(isNormal_normalize s).normalize_eq_self, isNormal_normalize s,
      normalizesTo_normalize s, normalize_override_normalize s⟩
  · rw [ofText?_eq_written]
    cases written? text with
    | none => rfl
    | some s => exact congrArg some (normalize_override_normalize s o)

/-- A host with a settings file whose texts have blanks around them. -/
def SimulatedHost.spacedSettings : SimulatedHost where
  files :=
    { root := .directory [("declmap.toml", .file (Text.Utf8.encode
        "[compiler]\nclang = ' '\ninclude_paths = [' a ', '']\n[mapper]\nmax_alias_depth = 99"))] }

theorem Settings.normalize_isNormalForm_spaced :
    LawfulMonad (StateM SimulatedHost) ∧
      ((CommandLine.Options.settings { includePaths := [" b"] } :
        StateM SimulatedHost (Except SettingsError Settings)).run .spacedSettings).1.toOption =
        some { compiler := { includePaths := ["a", "b"] }, survey := { maxAliasDepth := 64 } } := by
  refine ⟨inferInstance, ?_⟩
  rw [normalize_isNormalForm.2.2 (StateM SimulatedHost)]
  decide +kernel

end DeclAtlas
