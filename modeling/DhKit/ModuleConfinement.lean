import DhKit.ModuleResolver

/-!
# Resolved modules lie in the allowed roots

A probe only answers with the real path of a file in an allowed root, so no way of resolving a
specifier leads anywhere else.
-/
namespace DhKit.Modules
open Modules.Path List

namespace FileSystem
variable {fs : FileSystem} {p q : Path}

theorem canonicalizeIfExists_of_file (h:fs.isFile p) :
 fs.canonicalize p=some (fs.canonicalizeIfExists p) := by
 obtain ⟨q,hq⟩:=fs.canonical_of_file h
 rw [canonicalizeIfExists,hq]
 rfl

theorem canonicalizeIfExists_of_canonical (h:fs.canonicalize p=some p) :
 fs.canonicalizeIfExists p=p := by
 rw [canonicalizeIfExists,h]
 rfl

end FileSystem

structure Confined (resolver : ModuleResolver) (path : Path) : Prop where
 file : resolver.fs.isFile path
 canonical : resolver.fs.canonicalize path = some path
 inside : ∃ root ∈ resolver.allowedRoots,resolver.fs.canonicalizeIfExists root <+: path

structure ModuleResolution.Sound (resolver : ModuleResolver) (r : ModuleResolution) : Prop where
 resolved : r.status = .resolved → ∃ path,r.resolvedAbsPath = some path ∧ Confined resolver path
 ambiguous : r.status = .ambiguous →
  2 ≤ r.candidates.length ∧ r.candidates.Nodup ∧ ∀ path ∈ r.candidates,Confined resolver path

variable {probes : List PathProbe} {path : Path}

theorem mem_gather (h:path∈(gather probes).1) :
 ∃found usedIndex,PathProbe.found found usedIndex∈probes ∧ path∈found := by
 induction probes using List.reverseRecOn with
 | nil => cases h
 | append_singleton probes probe ih =>
  have hea:path∈(gather probes).1 → ∃found usedIndex,
   PathProbe.found found usedIndex∈probes++[probe] ∧ path∈found := by
   intro hme
   obtain ⟨found,usedIndex,hp,hpa⟩:=ih hme
   exact ⟨found,usedIndex,mem_append_left _ hp,hpa⟩
  unfold gather at h
  rw [foldl_append,foldl_cons,foldl_nil] at h
  cases probe with
  | found found usedIndex =>
   rcases mem_append.mp h with hme|hme
   · exact hea hme
   · exact ⟨found,usedIndex,mem_append_right _ mem_cons_self,hme⟩
  | outside path => exact hea h
  | notFound => exact hea h

namespace ModuleResolver
variable {resolver : ModuleResolver}
 {candidates : List Path} {usedIndex : Bool} {base : Path} {r : ModuleResolution}
  {specifier : String} {kind : Kind}

theorem confined_of_file (hf:resolver.fs.isFile path)
 (hal:resolver.isAllowedPath (resolver.fs.canonicalizeIfExists path)) :
 Confined resolver (resolver.fs.canonicalizeIfExists path) := by
 have hr:=FileSystem.canonicalizeIfExists_of_file hf
 have hca:=resolver.fs.canonical_canonical hr
 obtain ⟨root,hro,hwi⟩:=any_eq_true.mp hal
 refine ⟨?_,hca,root,hro,?_⟩
 · rw [resolver.fs.isFile_canonical hr]
   exact hf
 · unfold FileSystem.pathIsWithin at hwi
   rw [FileSystem.canonicalizeIfExists_of_canonical hca] at hwi
   exact isPrefixOf_iff_prefix.mp hwi

theorem probeFirst_found {paths : List Path} {used : Bool}
 (h:resolver.probeFirst paths usedIndex=some (.found candidates used)) :
 ∃path∈paths,resolver.fs.isFile path ∧ used=usedIndex ∧
  candidates=[resolver.fs.canonicalizeIfExists path] ∧
  resolver.isAllowedPath (resolver.fs.canonicalizeIfExists path) := by
 obtain ⟨path,hf,hp⟩:=Option.map_eq_some_iff.mp h
 dsimp only at hp
 split at hp
 · next hal =>
   cases hp
   exact ⟨path,mem_of_find?_eq_some hf,find?_some hf,rfl,rfl,hal⟩
 · cases hp

theorem probePath_found (h:resolver.probePath base = .found candidates usedIndex) :
 ∃paths,resolver.probeFirst paths usedIndex=some (.found candidates usedIndex) := by
 have hu:∀ {paths : List Path} {used : Bool},
  resolver.probeFirst paths used=some (.found candidates usedIndex) →
   resolver.probeFirst paths usedIndex=some (.found candidates usedIndex) := by
  intro paths used hp
  obtain ⟨-,-,-,rfl,-⟩:=probeFirst_found hp
  exact hp
 unfold probePath at h
 dsimp only at h
 split at h
 · cases h
 generalize hexa : resolver.probeFirst _ false=exact at h
 cases exact with
 | some probe =>
  cases h
  exact ⟨_,hu hexa⟩
 | none =>
  generalize hext : resolver.probeFirst (probeExtensions.map _) false=extended at h
  cases extended with
  | some probe =>
   cases h
   exact ⟨_,hu hext⟩
  | none =>
   generalize hi : resolver.probeFirst _ true=indexed at h
   cases indexed with
   | some probe =>
    cases h
    exact ⟨_,hu hi⟩
   | none => cases h

theorem probePath_confined (h:resolver.probePath base = .found candidates usedIndex) :
 ∀path∈candidates,Confined resolver path := by
 obtain ⟨paths,hp⟩:=probePath_found h
 obtain ⟨path,-,hf,-,rfl,hal⟩:=probeFirst_found hp
 intro path' hpa'
 rw [mem_singleton.mp hpa']
 exact confined_of_file hf hal

theorem gather_confined
 (h:∀probe∈probes,∃base,probe=resolver.probePath base ∨ ∃path,probe = .outside path) :
 ∀path∈(gather probes).1,Confined resolver path := by
 intro path hpa
 obtain ⟨found,usedIndex,hp,hme⟩:=mem_gather hpa
 obtain ⟨base,hb|⟨_,ho⟩⟩:=h _ hp
 · exact probePath_confined hb.symm path hme
 · cases ho

theorem sound_of_status (h:r.status≠.resolved)
 (h':r.status≠.ambiguous) : r.Sound resolver :=
 ⟨fun hr=>absurd hr h,fun hr=>absurd hr h'⟩

theorem mem_normalizeDedupSort :
 path∈resolver.normalizeDedupSort candidates ↔
  ∃c∈candidates,resolver.fs.canonicalizeIfExists c=path := by
 rw [normalizeDedupSort,mem_mergeSort,mem_dedup,mem_map]

theorem nodup_normalizeDedupSort (candidates : List Path) :
 (resolver.normalizeDedupSort candidates).Nodup :=
 (mergeSort_perm _ _).nodup_iff.mpr (nodup_dedup _)

theorem finalizeCandidates_sound {resolvedReason : Reason} {configPath : Option Path}
 (h:∀path∈candidates,Confined resolver path) :
 (resolver.finalizeCandidates specifier kind candidates resolvedReason configPath).Sound
  resolver := by
 have hal:∀path∈resolver.normalizeDedupSort candidates,Confined resolver path:=by
  intro path hp
  obtain ⟨c,hc,rfl⟩:=mem_normalizeDedupSort.mp hp
  rw [FileSystem.canonicalizeIfExists_of_canonical (h c hc).canonical]
  exact h c hc
 have hn:(resolver.normalizeDedupSort candidates).Nodup:=nodup_normalizeDedupSort candidates
 unfold finalizeCandidates
 split
 · exact sound_of_status nofun nofun
 · next path heq =>
   rw [heq] at hal
   exact ⟨fun _=>⟨path,rfl,hal path mem_cons_self⟩,nofun⟩
 · next several hni ho =>
   refine ⟨nofun,fun _=>⟨?_,hn,hal⟩⟩
   generalize resolver.normalizeDedupSort candidates=l at *
   match l with
   | [] => exact absurd rfl hni
   | [path] => exact absurd rfl (ho path)
   | _::_::_ => simp

theorem resolveBase_sound {escapes : String} :
 (resolver.resolveBase specifier kind base escapes).Sound resolver := by
 unfold resolveBase
 split
 · next heq => exact finalizeCandidates_sound (probePath_confined heq)
 · exact sound_of_status nofun nofun
 · exact sound_of_status nofun nofun

theorem resolveRelative_sound :
 (resolver.resolveRelative specifier).Sound resolver := by
 unfold resolveRelative
 split
 · exact sound_of_status nofun nofun
 split
 · exact sound_of_status nofun nofun
 · split
   · exact sound_of_status nofun nofun
   · exact resolveBase_sound

theorem resolveAbsolute_sound :
 (resolver.resolveAbsolute specifier).Sound resolver := by
 unfold resolveAbsolute
 split
 · exact sound_of_status nofun nofun
 · exact resolveBase_sound

theorem aliasProbes_probed {config : TsConfig}
 (h:resolver.aliasProbes config specifier=some probes) :
 ∀probe∈probes,∃base,probe=resolver.probePath base := by
 unfold aliasProbes at h
 split at h
 · cases h
 cases h
 intro probe hp
 obtain ⟨l,hl,hme⟩:=mem_flatten.mp hp
 obtain ⟨mapping,-,hma⟩:=mem_filterMap.mp hl
 obtain ⟨capture,-,rfl⟩:=Option.map_eq_some_iff.mp hma
 obtain ⟨target,-,rfl⟩:=mem_map.mp hme
 exact ⟨_,rfl⟩

theorem resolveAliasOrBaseUrl_sound (h:resolver.resolveAliasOrBaseUrl specifier=some r) :
 r.Sound resolver := by
 unfold resolveAliasOrBaseUrl at h
 split at h
 · cases h
 split at h
 · cases h
   exact sound_of_status nofun nofun
 · next config hco =>
   have hp:∀ {l : List Path} {escaped : Option Path},
    (resolver.aliasProbes config specifier).map gather=some (l,escaped) →
     ∀path∈l,Confined resolver path := by
    intro l escaped hga
    obtain ⟨probes,hp,hl⟩:=Option.map_eq_some_iff.mp hga
    have hme:=gather_confined fun probe hpr=>
     (aliasProbes_probed hp probe hpr).imp fun _=>Or.inl
    rw [hl] at hme
    exact hme
   split at h
   · cases h
     exact sound_of_status nofun nofun
   · cases h
     exact sound_of_status nofun nofun
   · next heq =>
     cases h
     exact finalizeCandidates_sound (hp heq)
   split at h
   · next heq =>
     cases h
     obtain ⟨baseUrl,-,hpr⟩:=Option.map_eq_some_iff.mp heq
     exact finalizeCandidates_sound (probePath_confined hpr)
   · cases h
     exact sound_of_status nofun nofun
   · cases h

theorem probeTarget_probed (root : Path) (target : String) :
 ∃base,resolver.probeTarget root target=resolver.probePath base ∨
  ∃path,resolver.probeTarget root target = .outside path := by
 refine ⟨pathFromBase root target,?_⟩
 unfold probeTarget
 dsimp only
 split
 · exact .inr ⟨_,rfl⟩
 · exact .inl rfl

theorem resolveWorkspacePackage_sound (h:resolver.resolveWorkspacePackage specifier=some r) :
 r.Sound resolver := by
 unfold resolveWorkspacePackage at h
 dsimp only at h
 split at h
 · cases h
 split at h
 · cases h
   exact sound_of_status nofun nofun
 split at h
 · cases h
   exact sound_of_status nofun nofun
 · cases h
   exact sound_of_status nofun nofun
 · next heq =>
   cases h
   apply finalizeCandidates_sound
   intro path hpa
   refine gather_confined ?_ path (by rw [heq]; exact hpa)
   intro probe hp
   obtain ⟨entry,-,hme⟩:=mem_flatMap.mp hp
   obtain ⟨target,-,rfl⟩:=mem_map.mp hme
   exact probeTarget_probed _ _

theorem resolve_sound (specifier : String) : (resolver.resolve specifier).Sound resolver := by
 unfold resolve
 split
 · exact sound_of_status nofun nofun
 split
 · exact sound_of_status nofun nofun
 split
 · exact resolveRelative_sound
 split
 · exact resolveAbsolute_sound
 split
 · next heq => exact resolveAliasOrBaseUrl_sound (Option.filter_eq_some_iff.mp heq).1
 · cases hp : resolver.resolveWorkspacePackage specifier with
   | none => exact sound_of_status nofun nofun
   | some r => exact resolveWorkspacePackage_sound hp

end ModuleResolver

/-- Module resolution is confined to the allowed roots, and the chain of configurations ends. -/
theorem module_resolution_confined (fs : FileSystem)
 (fromStr : String → Except String JsonRpc.Json) (context : ResolverContext) :
 (∀ specifier,((ModuleResolver.new fs fromStr context).resolve specifier).Sound
  (ModuleResolver.new fs fromStr context)) ∧
 ∀ (path : Path) (extra : Nat),
  ∃ result,loadTsConfigRecursive fs fromStr (maxExtendsDepth+2+extra) path 0 [] =
   some result := by
 refine ⟨fun specifier=>ModuleResolver.resolve_sound specifier,fun path extra=>?_⟩
 exact Option.isSome_iff_exists.mp
  (loadTsConfigRecursive_isSome fs fromStr (by omega) (by omega) path [])

end DhKit.Modules
