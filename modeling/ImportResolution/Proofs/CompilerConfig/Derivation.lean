/-
The search through extended configurations as a system of rules. A search
that ends has a derivation, and a derivation is a search that ends
(`optionsOf_eq_some_iff`), so what holds of every search that ends is proved
by induction on its derivation, and a search without one never ends.

The search looks at the files only and counts what it reads, so on a store
with the same files it ends with the same answer or does not end either
(`Follows.transfer`, `optionsOf_eq_none_of_sameFiles`).
-/
import ImportResolution.CompilerConfig.Chain
import ImportResolution.Proofs.SameFiles

namespace ImportResolution.CompilerConfig

open FileStore (SameFiles)

-- ================================================================ rules

mutual

/-- From `path`, met on the way along a chain, the search ends with an answer
and leaves a store. -/
inductive Follows (installed : String) :
    List String → String → FileStore → Except Fault Options → FileStore → Prop where
  /-- The path is on the chain. -/
  | circle {chain path s} (again : chain.any (FilePath.same path) = true) :
      Follows installed chain path s (.error (.circularExtends (chain ++ [path]))) s
  /-- The path is new, and no configuration file. -/
  | unreadable {chain path s s' fault} (new : chain.any (FilePath.same path) = false)
      (load : ConfigFile.load s path = (.error fault, s')) :
      Follows installed chain path s (.error fault) s'
  /-- The path is new and a configuration file; its options come last. -/
  | file {chain path s s₁ s₂ file inherited}
      (new : chain.any (FilePath.same path) = false)
      (load : ConfigFile.load s path = (.ok file, s₁))
      (inherits : Inherits installed chain path file.entries .unknown s₁ inherited s₂) :
      Follows installed chain path s
        (inherited.map (·.overlay (.stated file (directoryOf path)))) s₂

/-- The remaining entries of a file, on top of what is known so far, lead to an
answer and leave a store. -/
inductive Inherits (installed : String) :
    List String → String → List String → Options → FileStore → Except Fault Options →
      FileStore → Prop where
  /-- No entry is left. -/
  | done {chain path earlier s} : Inherits installed chain path [] earlier s (.ok earlier) s
  /-- The next entry means no file. -/
  | missing {chain path entry rest earlier s}
      (found : parentFile? s installed (directoryOf path) entry = none) :
      Inherits installed chain path (entry :: rest) earlier s
        (.error (parentMissing entry path)) s
  /-- The next entry leads to a fault. -/
  | failed {chain path entry rest earlier s s' parent fault}
      (found : parentFile? s installed (directoryOf path) entry = some parent)
      (follows : Follows installed (chain ++ [path]) parent s (.error fault) s') :
      Inherits installed chain path (entry :: rest) earlier s (.error fault) s'
  /-- The next entry leads to options, and then the others are followed. -/
  | next {chain path entry rest earlier s s₁ s₂ parent options answer}
      (found : parentFile? s installed (directoryOf path) entry = some parent)
      (follows : Follows installed (chain ++ [path]) parent s (.ok options) s₁)
      (inherits : Inherits installed chain path rest (earlier.overlay options) s₁ answer s₂) :
      Inherits installed chain path (entry :: rest) earlier s answer s₂

end

variable {installed path : String} {chain : List String} {s s' : FileStore}
  {answer : Except Fault Options}

-- ============================================================== trails

namespace Trail

variable {t t' : Trail}

/-- The files that were entered and not left are those on the chain. -/
def Agrees (t : Trail) : Prop :=
  ∀ path, t.hasVisited path = t.chain.any (FilePath.same path)

theorem agrees_of_chain (chain : List String) : Agrees ⟨chain, chain⟩ :=
  fun _ => rfl

theorem Agrees.enter (h : t.Agrees) (path : String) : (t.enter path).Agrees := by
  intro q
  have hq := h q
  rw [hasVisited] at hq
  rw [hasVisited, Trail.enter, List.any_cons, hq, List.any_append, List.any_cons, List.any_nil,
    Bool.or_false, Bool.or_comm]

/-- A file that was new is left as it was entered. -/
theorem leave_enter (h : t.hasVisited path = false) : (t.enter path).leave path = t := by
  have hself : FilePath.same path path = true := beq_self_eq_true _
  have hkeep : t.visited.filter (!FilePath.same path ·) = t.visited := by
    refine List.filter_eq_self.mpr fun q hq => ?_
    rw [hasVisited, List.any_eq_false] at h
    simpa using h q hq
  rw [leave, Trail.enter, List.filter_cons_of_neg (by simp [hself]), hkeep,
    List.dropLast_concat]

/-- What a search that began with a trail has left behind: the trail that it began with, if
it has come to options, and in any case one on which the visited files are those on the
chain. -/
structure Left (t : Trail) (answer : Except Fault Options) (t' : Trail) : Prop where
  agrees : t'.Agrees
  restored : ∀ options, answer = .ok options → t' = t

theorem Left.of_error {fault : Fault} (h : t'.Agrees) : Left t (.error fault) t' :=
  ⟨h, fun _ hok => by cases hok⟩

end Trail

-- ============================================================ adequacy

/-- A derivation is a search that ends, and leaves its trail. -/
theorem Follows.trail_optionsOf_eq (h : Follows installed chain path s answer s') :
    ∀ t : Trail, t.chain = chain → t.Agrees → ∃ t', t.Left answer t' ∧
      Trail.optionsOf installed path t s = some (answer, t', s') := by
  induction h using Follows.rec
    (motive_2 := fun chain path entries earlier s answer s' _ =>
      ∀ t : Trail, t.chain = chain ++ [path] → t.Agrees → ∃ t', t.Left answer t' ∧
        Trail.inheritedBy installed path entries earlier t s = some (answer, t', s')) with
  | circle again =>
      rintro t rfl ht
      refine ⟨t, .of_error ht, ?_⟩
      rw [Trail.optionsOf, if_pos ((ht _).trans again)]
  | @unreadable chain path s s' fault new load =>
      rintro t rfl ht
      refine ⟨t.enter path, .of_error (ht.enter path), ?_⟩
      simp [Trail.optionsOf, (ht path).trans new, load]
  | @file chain path s s₁ s₂ file inherited new load inherits ih =>
      rintro t rfl ht
      have hnew := (ht path).trans new
      obtain ⟨t', hleft, hinherited⟩ := ih (t.enter path) rfl (ht.enter path)
      cases inherited with
      | error fault =>
          refine ⟨t', .of_error hleft.agrees, ?_⟩
          simp [Trail.optionsOf, hnew, load, hinherited, Except.map]
      | ok options =>
          obtain rfl := hleft.restored options rfl
          refine ⟨t, ⟨ht, fun _ _ => rfl⟩, ?_⟩
          simp [Trail.optionsOf, hnew, load, hinherited, Except.map, Trail.leave_enter hnew]
  | done =>
      rename_i t _ ht
      exact ⟨t, ⟨ht, fun _ _ => rfl⟩, by rw [Trail.inheritedBy]⟩
  | missing found =>
      rename_i t _ ht
      exact ⟨t, .of_error ht, by simp [Trail.inheritedBy, found]⟩
  | failed found follows ih =>
      rename_i t hchain ht
      obtain ⟨t', hleft, hoptions⟩ := ih t hchain ht
      exact ⟨t', .of_error hleft.agrees, by simp [Trail.inheritedBy, found, hoptions]⟩
  | next found follows inherits ih ih' =>
      rename_i t hchain ht
      obtain ⟨t₁, hleft, hoptions⟩ := ih t hchain ht
      obtain rfl := hleft.restored _ rfl
      obtain ⟨t', hleft', hinherited⟩ := ih' t₁ hchain ht
      exact ⟨t', hleft', by simp [Trail.inheritedBy, found, hoptions, hinherited]⟩

theorem Follows.optionsOf_eq (h : Follows installed chain path s answer s') :
    optionsOf installed chain path s = some (answer, s') := by
  obtain ⟨t', -, ht'⟩ := h.trail_optionsOf_eq ⟨chain, chain⟩ rfl (Trail.agrees_of_chain chain)
  rw [optionsOf, ht', Option.map_some]

/-- A search that ends has a derivation, and leaves its trail; so have the entries of a
file that are followed. -/
theorem Trail.derives (installed : String) :
    (∀ path (t : Trail) s r, Trail.optionsOf installed path t s = some r → t.Agrees →
      Follows installed t.chain path s r.1 r.2.2 ∧ t.Left r.1 r.2.1) ∧
    ∀ path entries earlier (t : Trail) s r,
      Trail.inheritedBy installed path entries earlier t s = some r →
      ∀ chain, t.chain = chain ++ [path] → t.Agrees →
        Inherits installed chain path entries earlier s r.1 r.2.2 ∧ t.Left r.1 r.2.1 := by
  refine Trail.optionsOf.mutual_partial_correctness installed _ _ ?file ?entries
  case file =>
    intro inherited hinherited path t s r hr ht
    split at hr
    · next again =>
      cases hr
      exact ⟨.circle ((ht path).symm.trans again), .of_error ht⟩
    · next hnew =>
      rw [Bool.not_eq_true] at hnew
      have new := (ht path).symm.trans hnew
      split at hr
      · next fault s₁ load =>
        cases hr
        exact ⟨.unreadable new load, .of_error (ht.enter path)⟩
      · next file s₁ load =>
        obtain ⟨⟨answer, t₁, s₂⟩, hi, hfinal⟩ := Option.bind_eq_some_iff.mp hr
        obtain ⟨inherits, hleft⟩ := hinherited _ _ _ _ _ _ hi t.chain rfl (ht.enter path)
        have hfile := Follows.file new load inherits
        cases answer with
        | error fault =>
            cases hfinal
            exact ⟨hfile, .of_error hleft.agrees⟩
        | ok options =>
            cases hfinal
            obtain rfl := hleft.restored options rfl
            rw [Trail.leave_enter hnew]
            exact ⟨hfile, ht, fun _ _ => rfl⟩
  case entries =>
    intro options inherited hoptions hinherited path entries earlier t s r hr chain hchain ht
    cases entries with
    | nil =>
        cases hr
        exact ⟨.done, ht, fun _ _ => rfl⟩
    | cons entry rest =>
        simp only at hr
        split at hr
        · next found =>
          cases hr
          exact ⟨.missing found, .of_error ht⟩
        · next parent found =>
          obtain ⟨⟨first, t₁, s₁⟩, ho, hrest⟩ := Option.bind_eq_some_iff.mp hr
          obtain ⟨follows, hleft⟩ := hoptions _ _ _ _ ho ht
          rw [hchain] at follows
          cases first with
          | error fault =>
              cases hrest
              exact ⟨.failed found follows, .of_error hleft.agrees⟩
          | ok options =>
              obtain rfl : t₁ = t := hleft.restored options rfl
              obtain ⟨inherits, hleft'⟩ := hinherited _ _ _ _ _ _ hrest chain hchain ht
              exact ⟨.next found follows inherits, hleft'⟩

/-- A search that ends has a derivation. -/
theorem follows_of_optionsOf (h : optionsOf installed chain path s = some (answer, s')) :
    Follows installed chain path s answer s' := by
  obtain ⟨⟨found, t', s₁⟩, ht, heq⟩ := Option.map_eq_some_iff.mp h
  cases heq
  exact ((Trail.derives installed).1 path _ _ _ ht (Trail.agrees_of_chain chain)).1

theorem optionsOf_eq_some_iff :
    optionsOf installed chain path s = some (answer, s')
      ↔ Follows installed chain path s answer s' :=
  ⟨follows_of_optionsOf, Follows.optionsOf_eq⟩

-- ===================================================== the same files

theorem parentFile?_eq {t : FileStore} (h : SameFiles s t) :
    parentFile? s = parentFile? t := by
  funext installed dir entry
  unfold parentFile?
  rw [h.isFile_eq]

/-- The search changes nothing but the count of what was read, and on a store
with the same files it ends with the same answer. -/
theorem Follows.transfer (h : Follows installed chain path s answer s') :
    SameFiles s' s ∧ ∀ t, SameFiles s t →
      ∃ t', SameFiles t' t ∧ Follows installed chain path t answer t' := by
  induction h using Follows.rec
    (motive_2 := fun chain path entries earlier s answer s' _ =>
      SameFiles s' s ∧ ∀ t, SameFiles s t →
        ∃ t', SameFiles t' t ∧ Inherits installed chain path entries earlier t answer t') with
  | circle again => exact ⟨SameFiles.refl _, fun t _ => ⟨t, SameFiles.refl t, .circle again⟩⟩
  | unreadable new load =>
      refine ⟨SameFiles.of_load _ _ load, fun t ht => ?_⟩
      obtain ⟨t', hl, -⟩ := ht.load_transfer _ _ load
      exact ⟨t', SameFiles.of_load _ _ hl, .unreadable new hl⟩
  | file new load inherits ih =>
      refine ⟨ih.1.trans (SameFiles.of_load _ _ load), fun t ht => ?_⟩
      obtain ⟨t₁, hl, ht₁⟩ := ht.load_transfer _ _ load
      obtain ⟨t₂, ht₂, hi⟩ := ih.2 t₁ ht₁
      exact ⟨t₂, ht₂.trans (SameFiles.of_load _ _ hl), .file new hl hi⟩
  | done => exact ⟨SameFiles.refl _, fun t _ => ⟨t, SameFiles.refl t, .done⟩⟩
  | missing found =>
      refine ⟨SameFiles.refl _, fun t ht => ?_⟩
      rw [parentFile?_eq ht] at found
      exact ⟨t, SameFiles.refl t, .missing found⟩
  | failed found follows ih =>
      refine ⟨ih.1, fun t ht => ?_⟩
      obtain ⟨t', ht', hf⟩ := ih.2 t ht
      rw [parentFile?_eq ht] at found
      exact ⟨t', ht', .failed found hf⟩
  | next found follows inherits ih ih' =>
      refine ⟨ih'.1.trans ih.1, fun t ht => ?_⟩
      obtain ⟨t₁, ht₁, hf⟩ := ih.2 t ht
      obtain ⟨t₂, ht₂, hi⟩ := ih'.2 t₁ (ih.1.trans (ht.trans ht₁.symm))
      rw [parentFile?_eq ht] at found
      exact ⟨t₂, ht₂.trans ht₁, .next found hf hi⟩

theorem optionsOf_transfer {t : FileStore} (hst : SameFiles s t)
    (h : optionsOf installed chain path s = some (answer, s')) :
    ∃ t', SameFiles t' t ∧ optionsOf installed chain path t = some (answer, t') := by
  obtain ⟨t', ht', hf⟩ := (follows_of_optionsOf h).transfer.2 t hst
  exact ⟨t', ht', hf.optionsOf_eq⟩

/-- Whether the search ends is a matter of the files. -/
theorem optionsOf_eq_none_of_sameFiles {t : FileStore} (hst : SameFiles s t)
    (h : optionsOf installed chain path s = none) :
    optionsOf installed chain path t = none := by
  cases ht : optionsOf installed chain path t with
  | none => rfl
  | some found =>
      obtain ⟨s', -, hs⟩ := optionsOf_transfer hst.symm ht
      rw [h] at hs
      cases hs

-- ================================================== steady configuration

/-- The options in force are those of the files, however often they were read. -/
theorem steady_inForce (installed path : String) (s : FileStore) :
    Steady (SameFiles · s) (inForce installed path) := by
  cases h : optionsOf installed [] path s with
  | none =>
      refine ⟨.error (.extendsTooDeep path), fun t ht => ?_⟩
      rw [show inForce installed path t = (.error (.extendsTooDeep path), t) by
        rw [inForce, optionsOf_eq_none_of_sameFiles ht.symm h, Option.getD_none]]
      exact ⟨rfl, ht⟩
  | some found =>
      refine ⟨found.1, fun t ht => ?_⟩
      obtain ⟨t', ht', hf⟩ := optionsOf_transfer ht.symm h
      rw [show inForce installed path t = (found.1, t') by
        rw [inForce, hf, Option.getD_some]]
      exact ⟨rfl, ht'.trans ht⟩

theorem steady_ofFile (installed path : String) (s : FileStore) :
    Steady (SameFiles · s) (ofFile installed path) :=
  Steady.bindExcept (steady_inForce installed (FilePath.clean path) s) fun _ => Steady.pure _

/-- The nearest file is configured, if there is one. -/
theorem load_run (installed : String) (names : List String) (root : String) (s : FileStore) :
    load installed names root s
      = match s.findUpwards? names root with
        | none => (.ok none, s)
        | some path => (some <$> ofFile installed path : Reading _) s := by
  have hget : (get : Reading FileStore) s = (.ok s, s) := rfl
  rw [load, run_bind_of_ok hget]
  cases s.findUpwards? names root with
  | none => rfl
  | some path => rfl

/-- The configuration of a workspace is that of its files. -/
theorem steady_load (installed : String) (names : List String) (root : String) (s : FileStore) :
    Steady (SameFiles · s) (load installed names root) := by
  cases h : s.findUpwards? names root with
  | none =>
      refine ⟨.ok none, fun t ht => ?_⟩
      rw [load_run, ht.findUpwards?_eq, h]
      exact ⟨rfl, ht⟩
  | some path =>
      have hsome : Steady (SameFiles · s) (some <$> ofFile installed path : Reading _) :=
        Steady.bindExcept (steady_ofFile installed path s) fun _ => Steady.pure _
      obtain ⟨answer, hanswer⟩ := hsome
      refine ⟨answer, fun t ht => ?_⟩
      rw [load_run, ht.findUpwards?_eq, h]
      exact hanswer t ht

end ImportResolution.CompilerConfig
