import DhKit.ModuleConfinement

/-!
# The file that a base path names

A module `b` is the file `b`, or `b` with an extension, or an index file in `b`.
-/
namespace DhKit.Modules
open Modules.Path List

def moduleFiles (b : Path) : List (Path × Bool) :=
 probeExtensions.map (fun ext => (b.dropLast ++ [(fileName b).getD "" ++ "." ++ ext],false)) ++
  probeExtensions.map (fun ext => (b ++ ["index." ++ ext],true))

/-- The files that are looked for when `b` has an extension: those of its stem. -/
def stemFiles (b : Path) : List (Path × Bool) :=
 (withExtension b "",false) ::
  (probeExtensions.map (fun ext => (withExtension (withExtension b "") ext,false)) ++
   probeExtensions.map (fun ext => (join (withExtension b "") ["index." ++ ext],true)))

namespace ModuleResolver
variable (resolver : ModuleResolver)

def isInside (path : Path) : Bool :=
 resolver.fs.isFile path && resolver.isAllowedPath (resolver.fs.canonicalizeIfExists path)

def firstInside (b : Path) : Option (Path × Bool) :=
 (moduleFiles b).find? fun file => resolver.isInside file.1

/-- The probe finds the first file of the module in the roots, and only files of the module. -/
structure FindsModule (b : Path) (probe : PathProbe) : Prop where
 first : ¬ resolver.fs.isFile b → ∀ file,resolver.firstInside b = some file →
  probe = .found [resolver.fs.canonicalizeIfExists file.1] file.2
 named : ∀ candidates usedIndex,probe = .found candidates usedIndex →
  ∃ file ∈ (b,false)::moduleFiles b,resolver.fs.isFile file.1 ∧
   candidates = [resolver.fs.canonicalizeIfExists file.1]

def LinksStay (b : Path) : Prop :=
 ¬ resolver.fs.isFile b → ∀ file,resolver.firstInside b = some file →
  resolver.isAllowedPath b ∧
   (moduleFiles b).find? (fun file => resolver.fs.isFile file.1) = some file

/-- The first of the files leads to the first file of the module in the roots, and out of the roots
if the module has none there. -/
structure LeadsTo (b : Path) (files : List (Path × Bool)) : Prop where
 inside : ∀ file,resolver.firstInside b = some file → resolver.isAllowedPath b ∧
  ∃ met,files.find? (fun file => resolver.fs.isFile file.1) = some met ∧ met.2 = file.2 ∧
   resolver.fs.canonicalizeIfExists met.1 = resolver.fs.canonicalizeIfExists file.1
 absent : resolver.firstInside b = none → resolver.isAllowedPath b → ∀ met,
  files.find? (fun file => resolver.fs.isFile file.1) = some met →
  ¬ resolver.isAllowedPath (resolver.fs.canonicalizeIfExists met.1)

end ModuleResolver

section
variable {b : Path} {name : String} (hname : fileName b = some name)
include hname

theorem withExtension_plain (hp:extension b=none) {ext : String} (hext:ext ≠ "") :
 withExtension b ext=b.dropLast ++ [name ++ "." ++ ext] := by
 have hsp:splitAtDot name=none:=by
  simpa [extension,hname] using hp
 have hdo:name ++ "." ++ ext ≠ "." := by
  intro h
  have hl:=congrArg String.length h
  have hpo:ext.length≠0:=fun hz=>hext (String.length_eq_zero_iff.mp hz)
  rw [String.length_append,String.length_append] at hl
  omega
 rw [withExtension,hname]
 dsimp only
 rw [if_neg hext,stem,hsp,pushName,if_neg (fun h=>hdo h.1)]
 rfl

end

theorem join_index {p : Path} {ext : String} (hext:ext∈probeExtensions) :
 join p ["index." ++ ext]=p ++ ["index." ++ ext] := by
 have hi:∀ext∈probeExtensions,"index." ++ ext ≠ "/" ∧ "index." ++ ext ≠ "." := by decide
 obtain ⟨hr,hdo⟩:=hi ext hext
 simp [join,isAbsolute,hr,hdo]

namespace ModuleResolver
variable {resolver : ModuleResolver} {base : Path} {b : Path}

def settle (resolver : ModuleResolver) (file : Path × Bool) : PathProbe :=
 if resolver.isAllowedPath (resolver.fs.canonicalizeIfExists file.1) then
  .found [resolver.fs.canonicalizeIfExists file.1] file.2
 else .outside (resolver.fs.canonicalizeIfExists file.1)

theorem probeFirst_eq (paths : List Path) (usedIndex : Bool) :
 resolver.probeFirst paths usedIndex=((paths.map fun path=>(path,usedIndex)).find?
  fun file=>resolver.fs.isFile file.1).map resolver.settle := by
 rw [find?_map,Option.map_map]
 rfl

/-- The base itself is probed, and then the files of the module or those of the stem. -/
theorem probePath_eq (base : Path) (hname:(fileName (normalizePathLexically base)).isSome)
 (hr:resolver.allowedRoots≠[]) (hal:resolver.isAllowedPath (normalizePathLexically base)) :
 resolver.probePath base=((((normalizePathLexically base,false) ::
  if extension (normalizePathLexically base)=none
   then moduleFiles (normalizePathLexically base)
   else stemFiles (normalizePathLexically base)).find? fun file=>
   resolver.fs.isFile file.1).map resolver.settle).getD .notFound := by
 unfold probePath
 generalize normalizePathLexically base=b at *
 have hsp:∀p (first l l' : List (Path × Bool)),(first++(l++l')).find? p =
  (first.find? p).or ((l.find? p).or (l'.find? p)) := by
  intro p first l l'
  rw [find?_append,find?_append]
 rw [if_neg (by simp [hr,hal])]
 dsimp only
 by_cases hp:extension b=none
 · rw [if_pos hp]
   obtain ⟨name,hname⟩:=Option.isSome_iff_exists.mp hname
   have hext:probeExtensions.map (withExtension b) =
    probeExtensions.map fun ext=>b.dropLast ++ [(fileName b).getD "" ++ "." ++ ext] := by
    apply map_congr_left
    intro ext hme
    have hne:∀ext∈probeExtensions,ext ≠ "" := by decide
    rw [withExtension_plain hname hp (hne ext hme),hname]
    rfl
   have hi:(probeExtensions.map fun ext=>join b ["index." ++ ext]) =
    probeExtensions.map fun ext=>b ++ ["index." ++ ext] :=
    map_congr_left fun ext hme=>join_index hme
   rw [hp]
   simp only [Option.isSome_none,Bool.false_eq_true,if_false,Option.getD_none,hext,hi,
    probeFirst_eq]
   rw [moduleFiles,←@singleton_append _ (b,false),hsp]
   simp only [Option.map_or,Option.orElse_eq_or]
   rfl
 · have hso:(extension b).isSome:=Option.isSome_iff_ne_none.mpr hp
   rw [if_neg hp]
   simp only [hso,if_true,Option.getD_some,probeFirst_eq]
   have hl:(b,false)::stemFiles b=[(b,false),(withExtension b "",false)] ++
    (probeExtensions.map (fun ext=>(withExtension (withExtension b "") ext,false)) ++
     probeExtensions.map (fun ext=>(join (withExtension b "") ["index." ++ ext],true))) := rfl
   rw [hl,hsp]
   simp only [Option.map_or,Option.orElse_eq_or]
   rfl

theorem isInside_iff {path : Path} : resolver.isInside path ↔ resolver.fs.isFile path ∧
 resolver.isAllowedPath (resolver.fs.canonicalizeIfExists path) := by
 rw [isInside,Bool.and_eq_true]

theorem inside_of_firstInside {file : Path × Bool} (h:resolver.firstInside b=some file) :
 file∈moduleFiles b ∧ resolver.fs.isFile file.1 ∧
  resolver.isAllowedPath (resolver.fs.canonicalizeIfExists file.1) :=
 ⟨mem_of_find?_eq_some h,isInside_iff.mp (by simpa only using find?_some h)⟩

/-- The first file of the module is the first one in the roots, if it is in the roots at all. -/
theorem firstInside_of_find {file : Path × Bool}
 (h:(moduleFiles b).find? (fun file=>resolver.fs.isFile file.1)=some file)
 (hal:resolver.isAllowedPath (resolver.fs.canonicalizeIfExists file.1)) :
 resolver.firstInside b=some file := by
 rw [find?_eq_some_iff_append] at h
 obtain ⟨hfi,before,after,hf,hb⟩:=h
 rw [firstInside,find?_eq_some_iff_append]
 refine ⟨isInside_iff.mpr ⟨hfi,hal⟩,before,after,hf,fun earlier hme=>?_⟩
 have hn:=hb earlier hme
 simp only [isInside,Bool.not_eq_true'] at hn ⊢
 rw [hn,Bool.false_and]

section
variable {files : List (Path × Bool)} {probe : PathProbe}
 (hout : ¬ resolver.isAllowedPath b → probe = .outside b)
 (hprobe : resolver.isAllowedPath b → probe = ((((b,false)::files).find? fun file =>
  resolver.fs.isFile file.1).map resolver.settle).getD .notFound)
include hout hprobe

theorem probe_eq_found (hf:¬resolver.fs.isFile b) {candidates : List Path} {used : Bool} :
 probe = .found candidates used ↔ resolver.isAllowedPath b ∧
  ∃met,files.find? (fun file=>resolver.fs.isFile file.1)=some met ∧
   resolver.isAllowedPath (resolver.fs.canonicalizeIfExists met.1) ∧
   [resolver.fs.canonicalizeIfExists met.1]=candidates ∧ met.2=used := by
 by_cases hal:resolver.isAllowedPath b
 · simp only [hprobe hal,find?_cons,Bool.eq_false_of_not_eq_true hf]
   cases files.find? fun file=>resolver.fs.isFile file.1 with
   | none => simp
   | some met => by_cases hme:resolver.isAllowedPath (resolver.fs.canonicalizeIfExists met.1) <;>
     simp [settle,hme,hal]
 · rw [hout hal]
   simp [hal]

theorem findsModule_iff :
 resolver.FindsModule b probe ↔ (¬ resolver.fs.isFile b → resolver.LeadsTo b files) := by
 constructor
 · intro h hf
   constructor
   · intro file hfi
     obtain ⟨hal,met,hme,-,hc,hu⟩:=(probe_eq_found hout hprobe hf).mp (h.first hf file hfi)
     exact ⟨hal,met,hme,hu,(cons.inj hc).1⟩
   · intro hno hal met hme hin
     obtain ⟨file,hfile,hfi,hc⟩:=
      h.named _ _ ((probe_eq_found hout hprobe hf).mpr ⟨hal,met,hme,hin,rfl,rfl⟩)
     rcases mem_cons.mp hfile with rfl|hfile
     · exact hf hfi
     refine find?_eq_none.mp hno file hfile (isInside_iff.mpr ⟨hfi,?_⟩)
     rwa [←(cons.inj hc).1]
 · intro h
   constructor
   · intro hf file hfi
     obtain ⟨hal,met,hme,hu,hc⟩:=(h hf).inside file hfi
     obtain ⟨-,-,hin⟩:=inside_of_firstInside hfi
     exact (probe_eq_found hout hprobe hf).mpr ⟨hal,met,hme,hc ▸ hin,by rw [hc],hu⟩
   · intro candidates used hfo
     by_cases hf:resolver.fs.isFile b
     · have hal:resolver.isAllowedPath b:=by
        by_contra hal
        rw [hout hal] at hfo
        cases hfo
       simp only [hprobe hal,find?_cons,hf] at hfo
       refine ⟨_,mem_cons_self,hf,?_⟩
       change resolver.settle (b,false)=_ at hfo
       unfold settle at hfo
       split_ifs at hfo
       exact (PathProbe.found.inj hfo).1.symm
     · obtain ⟨hal,met,hme,hin,rfl,-⟩:=(probe_eq_found hout hprobe hf).mp hfo
       cases hfi:resolver.firstInside b with
       | none => exact absurd hin ((h hf).absent hfi hal met hme)
       | some file =>
        obtain ⟨-,met',hme',-,hc⟩:=(h hf).inside file hfi
        cases hme.symm.trans hme'
        obtain ⟨hfile,hfi,-⟩:=inside_of_firstInside hfi
        exact ⟨file,mem_cons_of_mem _ hfile,hfi,by rw [hc]⟩

end

theorem leadsTo_moduleFiles (hf:¬resolver.fs.isFile b) :
 resolver.LeadsTo b (moduleFiles b) ↔ resolver.LinksStay b := by
 constructor
 · intro h _ file hfi
   obtain ⟨hal,met,hme,-,hc⟩:=h.inside file hfi
   obtain ⟨-,-,hin⟩:=inside_of_firstInside hfi
   refine ⟨hal,?_⟩
   rw [hme,←hfi,firstInside_of_find hme (hc ▸ hin)]
 · intro h
   refine ⟨fun file hfi=>?_,fun hno _ met hme hin=>?_⟩
   · obtain ⟨hal,hme⟩:=h hf file hfi
     exact ⟨hal,file,hme,rfl,rfl⟩
   · cases hno.symm.trans (firstInside_of_find hme hin)

end ModuleResolver

def plainFiles (files : List Path) : FileSystem where
 isFile path := files.contains path
 canonicalize := some
 readToString _ := .error "not found"
 readDir _ := none
 canonical_of_file := fun _ => ⟨_,rfl⟩
 isFile_canonical := by
  intro p q h
  cases h
  rfl
 canonical_canonical := fun _ => rfl

/-- A name without an extension is probed right as far as no link leads out of the roots. One with
an extension is probed right if it names a file, or if what is found of its stem is right. -/
theorem probePath_finds_module_iff (resolver : ModuleResolver) (base b : Path)
 (hb : b = normalizePathLexically base) (hname : (fileName b).isSome)
 (hroots : resolver.allowedRoots ≠ []) :
 (extension b = none →
  (resolver.FindsModule b (resolver.probePath base) ↔ resolver.LinksStay b)) ∧
 (extension b ≠ none →
  (resolver.FindsModule b (resolver.probePath base) ↔
   (¬ resolver.fs.isFile b → resolver.LeadsTo b (stemFiles b)))) := by
 subst hb
 have hp:=ModuleResolver.probePath_eq base hname hroots
 have ho:¬resolver.isAllowedPath (normalizePathLexically base) →
  resolver.probePath base = .outside (normalizePathLexically base) := fun hn=>if_pos (.inr hn)
 constructor
 · intro hext
   rw [if_pos hext] at hp
   rw [ModuleResolver.findsModule_iff ho hp]
   constructor
   · intro h hf
     exact (ModuleResolver.leadsTo_moduleFiles hf).mp (h hf) hf
   · intro h hf
     exact (ModuleResolver.leadsTo_moduleFiles hf).mpr h
 · intro hext
   rw [if_neg hext] at hp
   exact ModuleResolver.findsModule_iff ho hp

def services : ModuleResolver where
 fs := plainFiles [["/","repo","user.ts"],["/","repo","user.service.ts"]]
 fromStr := .error
 context := ⟨some ["/","repo","main.ts"],some ["/","repo"],[],[]⟩
 allowedRoots := [["/","repo"]]
 packages := []

theorem probePath_finds_module_iff_user :
 services.FindsModule ["/","repo","user"] (services.probePath ["/","repo","user"]) ∧
 services.FindsModule ["/","repo","user.ts"] (services.probePath ["/","repo","user.ts"]) := by
 refine ⟨((probePath_finds_module_iff services ["/","repo","user"] _ rfl (by decide)
  (by decide)).1 (by decide)).mpr ?_,((probePath_finds_module_iff services ["/","repo","user.ts"]
   _ rfl (by decide) (by decide)).2 (by decide)).mpr fun h=>absurd (by decide) h⟩
 intro _ file hfi
 have hf:services.firstInside ["/","repo","user"]=some (["/","repo","user.ts"],false):=by decide
 cases hfi.symm.trans hf
 decide

/-- The module `./user.service` is taken for `./user`. -/
theorem dotted_module_misresolved :
 services.LinksStay ["/","repo","user.service"] ∧
 services.probePath ["/","repo","user.service"] = .found [["/","repo","user.ts"]] false ∧
 ¬ services.FindsModule ["/","repo","user.service"]
  (services.probePath ["/","repo","user.service"]) := by
 have hf:services.firstInside ["/","repo","user.service"] =
  some (["/","repo","user.service.ts"],false) := by decide
 have hp:services.probePath ["/","repo","user.service"] =
  .found [["/","repo","user.ts"]] false := rfl
 refine ⟨?_,hp,fun h=>?_⟩
 · intro _ file hfi
   rw [←hfi,hf]
   decide
 · have hfo:=h.first (by decide) _ hf
   exact absurd (PathProbe.found.inj hfo).1 (by decide)

end DhKit.Modules
