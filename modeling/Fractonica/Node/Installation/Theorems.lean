import Fractonica.Node.Installation

namespace Fractonica.Node

open Lib Trust List

namespace InstallationSystem

variable {J : ManifestFormat} {P : Primitives} {s s' : InstallationSystem}

-- A call reads, starts from a fresh directory, or completes what was started.
theorem perform_cases (J : ManifestFormat) (P : Primitives) (s : InstallationSystem) (call : Call) :
    ((s.perform J P call).1 = [] ∧ ∀ i, (s.perform J P call).2 = some i →
      s.installation = some i ∨ NodeInstallation.begin J s.view = .ok i) ∨
    (s.installation = some ⟨.fresh⟩ ∧ s.perform J P call =
      ([.write .identityPending IDENTITY_PENDING], some ⟨.identityInitializing⟩)) ∨
    ∃ manifest, s.installation = some ⟨.identityInitializing⟩ ∧ s.perform J P call =
      ([.write .manifest (J.toVecPretty manifest), .remove .identityPending],
        some ⟨.established manifest⟩) := by
  cases call with
  | begin => exact .inl ⟨rfl, fun i hi => .inr (toOption_eq_some.mp hi)⟩
  | startIdentity =>
    simp only [perform]
    rcases s.installation with _ | ⟨_ | _ | found⟩
    case startIdentity.some.fresh => exact .inr (.inl ⟨rfl, rfl⟩)
    all_goals exact .inl ⟨rfl, fun i hi => .inl hi⟩
  | completeIdentity identity =>
    simp only [perform]
    rcases s.installation with _ | ⟨_ | _ | found⟩
    case completeIdentity.some.identityInitializing => exact .inr (.inr ⟨_, rfl, rfl⟩)
    case completeIdentity.some.established =>
      simp only [NodeInstallation.completeIdentity]
      split_ifs <;> exact .inl ⟨rfl, fun i hi => .inl hi⟩
    all_goals exact .inl ⟨rfl, fun i hi => .inl hi⟩

-- What the process holds agrees with the manifest on the disk.
def Agrees (J : ManifestFormat) (dir : DataDir) (i : NodeInstallation) : Prop :=
  dir .manifest = none ∨ ∃ manifest, i.phase = .established manifest ∧
    dir .manifest = some (J.toVecPretty manifest)

structure Sound (J : ManifestFormat) (s : InstallationSystem) : Prop where
  whole : ∀ bytes, s.view .manifest = some bytes → ∃ manifest, bytes = J.toVecPretty manifest
  held : ∀ i, s.installation = some i → Agrees J s.view i

theorem begin_written {dir : DataDir} (h : dir .manifest = some (J.toVecPretty manifest)) :
    NodeInstallation.begin J dir = .ok ⟨.established manifest⟩ := by
  simp only [NodeInstallation.begin, h, J.reads_back]

theorem begin_torn {dir : DataDir} (h : dir .manifest = some []) :
    NodeInstallation.begin J dir = .error .json := by
  simp only [NodeInstallation.begin, h, J.refuses_empty]

theorem Sound.begin_ok (h : Sound J s) :
    ∃ i, NodeInstallation.begin J s.view = .ok i ∧ Agrees J s.view i := by
  cases hmanifest : s.view .manifest with
  | none => exact ⟨_, by rw [NodeInstallation.begin, hmanifest], .inl hmanifest⟩
  | some bytes =>
    obtain ⟨manifest, rfl⟩ := h.whole bytes hmanifest
    exact ⟨_, begin_written hmanifest, .inr ⟨manifest, rfl, hmanifest⟩⟩

-- A step makes some operations of a call, and the process goes on if it made all.
theorem Step.view (hstep : Step J P orderlyCrash s s') : ∃ call count,
    s'.view = s.view.after ((s.perform J P call).1.take count) ∧ ∀ i, s'.installation = some i →
      (s.perform J P call).2 = some i ∧ (s.perform J P call).1.length ≤ count := by
  cases hstep with
  | call call =>
    refine ⟨call, (s.perform J P call).1.length, ?_, fun i hi => ⟨hi, le_rfl⟩⟩
    rw [take_length]
    exact foldl_append
  | crash call hcrash =>
    obtain ⟨count, rfl⟩ := hcrash
    exact ⟨call, count, foldl_append, nofun⟩

theorem Sound.step (h : Sound J s) (hstep : Step J P orderlyCrash s s') :
    Sound J s' ∧ ∀ bytes, s.view .manifest = some bytes → s'.view .manifest = some bytes := by
  obtain ⟨call, count, hview, hheld⟩ := hstep.view
  -- Most steps leave the manifest.
  have hkeeps (hsame : s'.view .manifest = s.view .manifest)
      (hagrees : ∀ i, s'.installation = some i → Agrees J s.view i) :
      Sound J s' ∧ ∀ bytes, s.view .manifest = some bytes → s'.view .manifest = some bytes := by
    unfold Agrees at hagrees
    rw [← hsame] at hagrees ⊢
    exact ⟨⟨fun bytes hbytes => h.whole bytes (hsame.symm.trans hbytes), hagrees⟩, fun _ => id⟩
  rcases perform_cases J P s call with ⟨hnone, hlater⟩ | ⟨hfresh, hperform⟩ |
    ⟨manifest, hinitializing, hperform⟩
  · rw [hnone, take_nil] at hview
    refine hkeeps (congrFun hview _) fun i hi => ?_
    rcases hlater i (hheld i hi).1 with hkept | hbegun
    · exact h.held i hkept
    · obtain ⟨found, hfound, hagrees⟩ := h.begin_ok
      rw [← Except.ok.inj (hfound.symm.trans hbegun)]
      exact hagrees
  · refine hkeeps ?_ fun i _ => ?_
    · rw [hview, hperform]
      rcases count with _ | count <;> simp [Directory.after, FileEffect.apply]
    · exact (h.held _ hfresh).imp_right fun ⟨_, hphase, _⟩ => nomatch hphase
  · rw [hperform] at hview hheld
    have hempty : s.view .manifest = none :=
      (h.held _ hinitializing).resolve_right fun ⟨_, hphase, _⟩ => nomatch hphase
    rcases count with _ | count
    · exact hkeeps (congrFun hview _) fun i hi => absurd (hheld i hi).2 (by simp)
    · have hwritten : s'.view .manifest = some (J.toVecPretty manifest) := by
        rw [hview]
        rcases count with _ | count <;> simp [Directory.after, FileEffect.apply]
      refine ⟨⟨fun bytes hbytes => ⟨manifest, Option.some.inj (hbytes.symm.trans hwritten)⟩,
        fun i hi => .inr ⟨manifest, ?_, hwritten⟩⟩, fun bytes hbytes => ?_⟩
      · rw [← Option.some.inj (hheld i hi).1]
      · rw [hempty] at hbytes
        cases hbytes

theorem Sound.steps (h : Sound J s) (hsteps : Steps J P orderlyCrash s s') :
    Sound J s' ∧ ∀ bytes, s.view .manifest = some bytes → s'.view .manifest = some bytes := by
  induction hsteps with
  | refl => exact ⟨h, fun _ => id⟩
  | tail _ hstep ih =>
    obtain ⟨hsound, hkept⟩ := ih.1.step hstep
    exact ⟨hsound, fun bytes hbytes => hkept bytes (ih.2 bytes hbytes)⟩

end InstallationSystem

open InstallationSystem (Steps anyCrash begin_torn begin_written initial orderlyCrash)

-- If every crash keeps the finished operations and tears no file, the next start
-- succeeds, and an established identity stays.
theorem installation_survives_orderly_crashes (J : ManifestFormat) (P : Primitives) :
    (∀ s, Steps J P orderlyCrash initial s → (NodeInstallation.begin J s.view).isOk = true) ∧
    ∀ s s' manifest, Steps J P orderlyCrash initial s →
      NodeInstallation.begin J s.view = .ok ⟨.established manifest⟩ →
      Steps J P orderlyCrash s s' →
        NodeInstallation.begin J s'.view = .ok ⟨.established manifest⟩ := by
  have hinitial : InstallationSystem.Sound J initial := ⟨nofun, nofun⟩
  refine ⟨fun s hsteps => ?_, fun s s' manifest hsteps hestablished hlater => ?_⟩
  · obtain ⟨i, hbegin, -⟩ := (hinitial.steps hsteps).1.begin_ok
    rw [hbegin]
    rfl
  · cases hmanifest : s.view .manifest with
    | none =>
      simp only [NodeInstallation.begin, hmanifest, Except.ok.injEq,
        NodeInstallation.mk.injEq] at hestablished
      split_ifs at hestablished
    | some bytes =>
      have hsame := ((hinitial.steps hsteps).1.steps hlater).2 bytes hmanifest
      simp only [NodeInstallation.begin, hmanifest] at hestablished
      simp only [NodeInstallation.begin, hsame]
      exact hestablished

namespace Sample

-- A format with the two laws.
def format : ManifestFormat where
  toVecPretty manifest := manifest.nodeId.bytes.bytes ++
    (manifest.controllerActorId.bytes.bytes ++ manifest.localWriterActorId.bytes.bytes)
  fromSlice bytes := do
    let nodeId ← FixedBytes.ofList? 32 (bytes.take 32)
    let controllerActorId ← FixedBytes.ofList? 32 ((bytes.drop 32).take 32)
    let localWriterActorId ← FixedBytes.ofList? 32 ((bytes.drop 32).drop 32)
    some ⟨⟨nodeId⟩, ⟨controllerActorId⟩, ⟨localWriterActorId⟩⟩
  reads_back manifest := by
    simp [FixedBytes.ofList?, FixedBytes.length_eq]
  refuses_empty := rfl

def installed : IdentityBundle :=
  ⟨⟨FixedBytes.replicate 32 1⟩, ⟨FixedBytes.replicate 32 2⟩, ⟨FixedBytes.replicate 32 3⟩⟩

end Sample

open Sample (format installed)

-- A crash while the manifest is written leaves an empty file, and the node does
-- not start again. A crash after it loses what was not synced, and an established
-- installation is fresh.
theorem torn_manifest_stops_node :
    ∃ P : Primitives,
      (∃ s, Steps format P anyCrash initial s ∧
        NodeInstallation.begin format s.view = .error .json) ∧
      ∃ s s', Steps format P anyCrash initial s ∧ NodeInstallation.begin format s.view =
          .ok ⟨.established (.fromIdentity P installed)⟩ ∧
        Steps format P anyCrash s s' ∧ NodeInstallation.begin format s'.view = .ok ⟨.fresh⟩ := by
  have hstarted := ((Relation.ReflTransGen.refl.tail (.call .begin)).tail (.call .startIdentity) :
    Steps format fixtureRecording.primitives anyCrash initial _)
  exact ⟨_, ⟨_, hstarted.tail (.crash (.completeIdentity installed)
    (.kept (.torn nil_prefix (.lost .nil)))), begin_torn rfl⟩,
    _, _, hstarted.tail (.call (.completeIdentity installed)), begin_written rfl,
    .single (.crash .begin (.lost (.lost (.lost .nil)))), rfl⟩

end Fractonica.Node
