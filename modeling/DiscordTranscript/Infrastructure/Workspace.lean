import DiscordTranscript.Foundation.Separated
import DiscordTranscript.Audio.ChunkNames
import DiscordTranscript.Infrastructure.UploadRefusals

/-! # Meeting workspaces

The model of `MeetingWorkspaceLayout` in `infrastructure/workspace.rs` and of the
object keys that mirror it. A meeting's files lie under three sanitized components
below the workspaces root, and its objects under the key of that directory. Two
meetings share neither: no key of one begins with the prefix that a deletion of the
other is given, so the deletion, its tombstone and its refusals pass it by.
-/

namespace DiscordTranscript.Infrastructure

open Audio

/-! ## Paths -/

/-- One component of a path. -/
structure PathComponent where
  text : String
  nonempty : text ≠ ""
  plain : '/' ∉ text.toList
  deriving DecidableEq

/-- A path inside the storage tree, by its components. -/
abbrev FilePath := List PathComponent

def FilePath.names (path : FilePath) : List String := path.map (·.text)

@[simp] theorem FilePath.names_append (dir rest : FilePath) :
    FilePath.names (dir ++ rest) = dir.names ++ rest.names := List.map_append

/-- The path names something inside the directory and does not climb. -/
def FilePath.Below (dir path : FilePath) : Prop :=
  ∃ rest : FilePath, rest ≠ [] ∧ path = dir ++ rest ∧
    ∀ component ∈ rest, component.text ≠ "." ∧ component.text ≠ ".."

def PathComponent.sanitized (input : String) : PathComponent where
  text := sanitizePathComponent input
  nonempty := (sanitizePathComponent_ne_special input).1
  plain := by
    intro hmem
    have hclass := List.all_eq_true.mp (all_isComponentChar_sanitize input) '/' hmem
    exact absurd hclass (by decide)

theorem PathComponent.sanitized_injective : Function.Injective PathComponent.sanitized := by
  intro left right heq
  have htext : sanitizePathComponent left = sanitizePathComponent right :=
    congrArg PathComponent.text heq
  have hdecode := decodeSanitizedPathComponent_sanitize left
  rw [htext, decodeSanitizedPathComponent_sanitize] at hdecode
  exact (Option.some.inj hdecode).symm

/-! ## The layout -/

def workspacesRootDir : PathComponent := ⟨"workspaces", by decide, by decide⟩

def debugArtifactsRootDir : PathComponent := ⟨"debug-artifacts", by decide, by decide⟩

/-- What names a meeting: three texts that come from outside. -/
@[ext]
structure MeetingIds where
  guildId : String
  voiceChannelId : String
  meetingId : String
  deriving DecidableEq

structure MeetingWorkspacePaths where
  root : FilePath
  debugRoot : FilePath

structure MeetingWorkspaceLayout where
  baseDir : FilePath

namespace MeetingWorkspaceLayout

variable (layout : MeetingWorkspaceLayout)

def workspaceRoot : FilePath := layout.baseDir ++ [workspacesRootDir]

def debugArtifactsRoot : FilePath := layout.baseDir ++ [debugArtifactsRootDir]

def forMeeting (ids : MeetingIds) : MeetingWorkspacePaths :=
  let guild := PathComponent.sanitized ids.guildId
  let channel := PathComponent.sanitized ids.voiceChannelId
  let meeting := PathComponent.sanitized ids.meetingId
  { root := layout.workspaceRoot ++ [guild, channel, meeting]
    debugRoot := layout.debugArtifactsRoot ++ [guild, channel, meeting] }

theorem forMeeting_root_injective :
    Function.Injective fun ids => (layout.forMeeting ids).root := by
  intro left right heq
  obtain ⟨hguild, hrest⟩ := List.cons.inj (List.append_cancel_left heq)
  obtain ⟨hchannel, hrest⟩ := List.cons.inj hrest
  obtain ⟨hmeeting, -⟩ := List.cons.inj hrest
  exact MeetingIds.ext (PathComponent.sanitized_injective hguild)
    (PathComponent.sanitized_injective hchannel) (PathComponent.sanitized_injective hmeeting)

theorem below_workspaceRoot (ids : MeetingIds) :
    layout.workspaceRoot.Below (layout.forMeeting ids).root := by
  refine ⟨_, List.cons_ne_nil _ _, rfl, fun component hcomponent => ?_⟩
  have hsanitized : ∃ input, component = PathComponent.sanitized input := by
    simp only [List.mem_cons, List.not_mem_nil, or_false] at hcomponent
    rcases hcomponent with rfl | rfl | rfl <;> exact ⟨_, rfl⟩
  obtain ⟨input, rfl⟩ := hsanitized
  exact (sanitizePathComponent_ne_special input).2

end MeetingWorkspaceLayout

/-! ## Object keys -/

/-- The key prefix that mirrors a directory. -/
def UploadQueue.objectPrefix (queue : UploadQueue) (dir : List String) : Option String :=
  (queue.objectKey dir).map (· ++ "/")

theorem UploadQueue.objectKey_eq_some {queue : UploadQueue} {path : List String} {key : String}
    (hkey : queue.objectKey path = some key) :
    ∃ rest, path = queue.storageDir ++ rest ∧ rest ≠ [] ∧
      key = queue.keyPrefix ++ String.intercalate "/" rest := by
  unfold objectKey at hkey
  split at hkey
  next hstart =>
    obtain ⟨rest, rfl⟩ := List.isPrefixOf_iff_prefix.mp hstart
    simp only [List.drop_left] at hkey
    split at hkey
    next => cases hkey
    next hrel =>
      refine ⟨rest, rfl, ?_, (Option.some.inj hkey).symm⟩
      rintro rfl
      exact hrel String.intercalate_nil
  next => cases hkey

theorem FilePath.slash_notMem_names (path : FilePath) :
    ∀ word ∈ path.names.map String.toList, '/' ∉ word := by
  intro word hword
  obtain ⟨name, hname, rfl⟩ := List.mem_map.mp hword
  obtain ⟨component, -, rfl⟩ := List.mem_map.mp hname
  exact component.plain

/-- A key begins with the prefix of a directory only if its file is inside it. -/
theorem UploadQueue.prefix_of_startsWith {queue : UploadQueue} {dir path : FilePath}
    {key target : String} (hkey : queue.objectKey path.names = some key)
    (htarget : queue.objectPrefix dir.names = some target)
    (hstarts : startsWith key target = true) : dir.names <+: path.names := by
  obtain ⟨dirKey, hdirKey, rfl⟩ := Option.map_eq_some_iff.mp htarget
  obtain ⟨dirRest, hdir, hnonempty, rfl⟩ := objectKey_eq_some hdirKey
  obtain ⟨pathRest, hpath, -, rfl⟩ := objectKey_eq_some hkey
  have hslash : ∀ {path : FilePath} {rest : List String},
      path.names = queue.storageDir ++ rest → ∀ word ∈ rest.map String.toList, '/' ∉ word := by
    intro path rest hnames word hword
    refine path.slash_notMem_names word ?_
    rw [hnames, List.map_append]
    exact List.mem_append_right _ hword
  have hjoined : ['/'].intercalate (dirRest.map String.toList) ++ ['/'] <+:
      ['/'].intercalate (pathRest.map String.toList) := by
    have hlists := startsWith_iff.mp hstarts
    rw [String.toList_append, String.toList_append, String.toList_append,
      String.toList_intercalate, String.toList_intercalate, List.append_assoc,
      List.prefix_append_right_inj] at hlists
    exact hlists
  have hrest : dirRest.map String.toList <+: pathRest.map String.toList := by
    refine Separated.prefix_of_intercalate_prefix (hslash hdir) (hslash hpath) ?_ hjoined
    exact fun hnil => hnonempty (List.map_eq_nil_iff.mp hnil)
  rw [hdir, hpath, List.prefix_append_right_inj]
  exact (List.prefix_map_iff_of_injective fun _ _ => String.toList_injective).mp hrest

/-- The keys of a store over the base directory. -/
def MeetingWorkspaceLayout.objects (layout : MeetingWorkspaceLayout) (keyPrefix : String) :
    UploadQueue :=
  (Process.new keyPrefix layout.baseDir.names).uploads

theorem MeetingWorkspaceLayout.startsWith_other {layout : MeetingWorkspaceLayout}
    {queue : UploadQueue} {ids other : MeetingIds} (hother : other ≠ ids) {file : FilePath}
    {key target : String}
    (hkey : queue.objectKey ((layout.forMeeting ids).root ++ file).names = some key)
    (htarget : queue.objectPrefix (layout.forMeeting other).root.names = some target) :
    startsWith key target = false := by
  cases hstarts : startsWith key target with
  | false => rfl
  | true =>
      have hnames := UploadQueue.prefix_of_startsWith hkey htarget hstarts
      -- Both roots have as many components, so one inside the other is the same.
      have hroots : (layout.forMeeting other).root.names = (layout.forMeeting ids).root.names := by
        have hlength : (layout.forMeeting other).root.names.length =
            (layout.forMeeting ids).root.names.length := by
          simp only [forMeeting, FilePath.names_append, List.length_append]
          rfl
        rw [FilePath.names_append] at hnames
        exact (List.prefix_of_prefix_length_le hnames (List.prefix_append _ _)
          hlength.le).eq_of_length hlength
      have htext : Function.Injective PathComponent.text := by
        intro left right heq
        cases left
        cases right
        cases heq
        rfl
      exact absurd (layout.forMeeting_root_injective (htext.list_map hroots)) hother

/-- The keys of a meeting are no tombstones. -/
theorem MeetingWorkspaceLayout.ne_tombstone {layout : MeetingWorkspaceLayout} {keyPrefix : String}
    {ids : MeetingIds} {file : FilePath} {key : String}
    (hkey : (layout.objects keyPrefix).objectKey ((layout.forMeeting ids).root ++ file).names =
      some key) (target : String) : key ≠ keyPrefix ++ ".tombstones/" ++ target := by
  obtain ⟨rest, hrest, -, rfl⟩ := UploadQueue.objectKey_eq_some hkey
  have hnames : workspacesRootDir.text :: (FilePath.names [.sanitized ids.guildId,
      .sanitized ids.voiceChannelId, .sanitized ids.meetingId] ++ file.names) = rest := by
    simp only [forMeeting, workspaceRoot, FilePath.names_append, List.append_assoc] at hrest
    exact List.append_cancel_left hrest
  intro heq
  have hlists := congrArg String.toList heq
  rw [String.append_assoc, String.toList_append, String.toList_append, ← hnames] at hlists
  have htails := List.append_cancel_left hlists
  rw [String.toList_append, String.toList_intercalate] at htails
  cases htails

/-- A deletion of another prefix leaves the object alone. -/
theorem Guarded.delete_object {objects : AList (fun _ : String => List UInt8)}
    {keyPrefix key : String} {site : Site} (hguarded : Guarded objects keyPrefix site)
    {index : ℕ} {call : DeleteCall} (hcall : site.process.deletes[index]? = some call)
    (htarget : startsWith key call.target = false)
    (htombstone : key ≠ keyPrefix ++ ".tombstones/" ++ call.target) (input : DeleteInput) :
    (site.step (.delete index input)).world.object key = site.world.object key := by
  have hworld : (site.step (.delete index input)).world =
      (call.advance site.process.clock input site.process.uploads site.world).2.2 := by
    simp only [Site.step, Process.step, hcall]
  rw [hworld]
  rcases call.advance_world site.process.clock input site.process.uploads site.world with
    hsame | ⟨-, -, hput⟩ | ⟨keys, removed, hphase, hsubset, -, hremoved⟩
  · rw [hsame]
  · rw [hput, World.object_put, UploadQueue.tombstonePrefix, hguarded.keyPrefix_eq,
      if_neg htombstone]
  · rw [hremoved, World.object_delete, if_neg]
    intro hmem
    have hlisted := hguarded.refusals.listed call (List.mem_of_getElem? hcall) keys hphase key
      (hsubset hmem)
    rw [htarget] at hlisted
    cases hlisted

/-- The workspace of a meeting is below the workspaces root and differs from that of any
other meeting, and no key of a file in it begins with the object prefix of another one. In
every run of a store over the layout, a deletion of another meeting's prefix leaves the
meeting's objects as they are, and what is refused, cancelled or removed of the meeting is
so for a prefix that is no other meeting's. -/
theorem meetings_isolated (layout : MeetingWorkspaceLayout) (ids : MeetingIds) :
    layout.workspaceRoot.Below (layout.forMeeting ids).root ∧
      (∀ other ≠ ids, (layout.forMeeting other).root ≠ (layout.forMeeting ids).root) ∧
      (∀ (queue : UploadQueue) (file : FilePath) (key : String),
        queue.objectKey ((layout.forMeeting ids).root ++ file).names = some key →
        ∀ other ≠ ids, ∀ target,
          queue.objectPrefix (layout.forMeeting other).root.names = some target →
          startsWith key target = false) ∧
      ∀ (keyPrefix : String) (objects : AList (fun _ : String => List UInt8))
        (files : List String → Option (List UInt8)) (inputs : List ProcessInput)
        (file : FilePath) (key : String),
        (layout.objects keyPrefix).objectKey ((layout.forMeeting ids).root ++ file).names =
          some key →
        let site := Machine.run Site.step
          (.new keyPrefix layout.baseDir.names objects files) inputs
        let isOther := fun target => ∃ other ≠ ids,
          (layout.objects keyPrefix).objectPrefix (layout.forMeeting other).root.names = some target
        (∀ index call input, site.process.deletes[index]? = some call → isOther call.target →
          (site.step (.delete index input)).world.object key = site.world.object key) ∧
        (site.Refused key → ∃ target, Announced objects site.process.uploads target ∧
          startsWith key target = true ∧ ¬isOther target) := by
  refine ⟨layout.below_workspaceRoot ids, ?_, ?_, ?_⟩
  · exact fun other hother hroots => hother (layout.forMeeting_root_injective hroots)
  · exact fun queue file key hkey other hother target htarget =>
      MeetingWorkspaceLayout.startsWith_other hother hkey htarget
  · intro keyPrefix objects files inputs file key hkey site isOther
    have hguarded : Guarded objects keyPrefix site :=
      Site.run_guarded keyPrefix layout.baseDir.names objects files inputs
    have houtside : ∀ target, isOther target → startsWith key target = false := by
      rintro target ⟨other, hother, htarget⟩
      exact MeetingWorkspaceLayout.startsWith_other hother hkey htarget
    constructor
    · intro index call input hcall hother
      exact hguarded.delete_object hcall (houtside call.target hother)
        (MeetingWorkspaceLayout.ne_tombstone hkey call.target) input
    · intro hrefused
      obtain ⟨target, hannounced, hstarts⟩ := hguarded.announced_of_refused hrefused
      refine ⟨target, hannounced, hstarts, fun hother => ?_⟩
      rw [houtside target hother] at hstarts
      cases hstarts

/-- A chunk of one meeting is stored, and the removal of another meeting, whose id is the
first part of its id, is about to delete what it listed. -/
def storeThenDeleteOther : List ProcessInput :=
  ProcessInput.begin (.putBytes ["data", "workspaces", "g", "c", "m%2F1", "a.wav"] [1]) ::
    List.replicate 6 (ProcessInput.call 0 {}) ++ List.replicate 14 (ProcessInput.work {}) ++
    ProcessInput.beginDelete "recordings/workspaces/g/c/m/" :: List.replicate 5 (ProcessInput.delete 0 {})

def dataLayout : MeetingWorkspaceLayout := ⟨[⟨"data", by decide, by decide⟩]⟩

theorem stored_chunk_outlives_other_meeting :
    let site := Machine.run Site.step
      (.new "recordings/" dataLayout.baseDir.names ∅ fun _ => none) storeThenDeleteOther
    site.world.object "recordings/workspaces/g/c/m%2F1/a.wav" = some [1] ∧
      (site.step (.delete 0 {})).world.object "recordings/workspaces/g/c/m%2F1/a.wav" =
        some [1] := by
  intro site
  have hstored : site.world.object "recordings/workspaces/g/c/m%2F1/a.wav" = some [1] := by
    decide +kernel
  have hdelete : (site.process.deletes[0]?).map (·.target) =
      some "recordings/workspaces/g/c/m/" := by
    decide +kernel
  obtain ⟨call, hcall, htarget⟩ := Option.map_eq_some_iff.mp hdelete
  have hisolated := (meetings_isolated dataLayout ⟨"g", "c", "m/1"⟩).2.2.2 "recordings/" ∅
    (fun _ => none) storeThenDeleteOther [⟨"a.wav", by decide, by decide⟩]
    "recordings/workspaces/g/c/m%2F1/a.wav" (by decide +kernel)
  have hprefix : (dataLayout.objects "recordings/").objectPrefix
      (dataLayout.forMeeting ⟨"g", "c", "m"⟩).root.names = some "recordings/workspaces/g/c/m/" := by
    decide +kernel
  have hsite : site = Machine.run Site.step
      (.new "recordings/" dataLayout.baseDir.names ∅ fun _ => none) storeThenDeleteOther := rfl
  clear_value site
  simp only [← hsite] at hisolated
  refine ⟨hstored, (hisolated.1 0 call {} hcall ⟨⟨"g", "c", "m"⟩, by decide, ?_⟩).trans hstored⟩
  exact hprefix.trans (congrArg some htarget.symm)

end DiscordTranscript.Infrastructure
