import IndexRefresh.Service.Refusal
import IndexRefresh.Text.Numeral

namespace IndexRefresh

namespace Text

def Opens (a text : String) : Prop :=
  a.toList <+: text.toList

def Diverge (a b : String) : Prop :=
  ¬a.toList <+: b.toList ∧ ¬b.toList <+: a.toList

instance (a text : String) : Decidable (Opens a text) :=
  inferInstanceAs (Decidable (_ <+: _))

instance (a b : String) : Decidable (Diverge a b) :=
  inferInstanceAs (Decidable (_ ∧ _))

variable {a b x y : String}

theorem opens_append (a x : String) : Opens a (a ++ x) := by
  rw [Opens, String.toList_append]
  exact List.prefix_append ..

theorem Opens.append (h : Opens a x) (y : String) : Opens a (x ++ y) := by
  rw [Opens, String.toList_append]
  exact h.trans (List.prefix_append ..)

theorem Opens.ne (hx : Opens a x) (hy : Opens b y) (h : Diverge a b) : x ≠ y := by
  rintro rfl
  rcases List.prefix_or_prefix_of_prefix hx hy with hab | hba
  · exact h.1 hab
  · exact h.2 hba

theorem Opens.ne_append (hx : Opens (a ++ b) x) (h : ¬b.toList <+: y.toList) : x ≠ a ++ y := by
  rintro rfl
  rw [Opens, String.toList_append, String.toList_append, List.prefix_append_right_inj] at hx
  exact h hx

theorem getLast?_toList_append (x : String) (h : y.toList ≠ []) :
    (x ++ y).toList.getLast? = y.toList.getLast? := by
  rw [String.toList_append, List.getLast?_append, List.getLast?_eq_some_getLast h, Option.some_or]

end Text

namespace Failure

open Text

def opening : Failure → String
  | .repositoryNotFound => "Repository not found: "
  | .missingCommitSha => "Repository "
  | .invalidSourceUrl _ => "Cannot determine owner/repo of "
  | .headLookup _ _ => "Failed to resolve head of branch '"
  | .forcePush _ _ => "Force push detected on "
  | .tooManyChanges _ _ => ""
  | .truncated _ => "Comparison for "
  | .comparison _ => "Failed to compare commits for "
  | .gitPull _ => "git pull failed for "
  | .pipeline _ => "Update pipeline failed for "
  | .metadata _ => "Metadata store error for "
  | .cancelled => "Update of "

theorem opens_opening (f : Failure) (repository : String) :
    Opens f.opening (f.message repository) := by
  cases f with
  | repositoryNotFound => exact opens_append ..
  | missingCommitSha => exact (opens_append ..).append _
  | invalidSourceUrl => exact (((opens_append ..).append _).append _).append _
  | headLookup => exact (opens_append ..).append _
  | forcePush => exact ((((opens_append ..).append _).append _).append _).append _
  | tooManyChanges => exact List.nil_prefix
  | truncated => exact (((opens_append ..).append _).append _).append _
  | comparison => exact ((opens_append ..).append _).append _
  | gitPull => exact ((opens_append ..).append _).append _
  | pipeline => exact ((opens_append ..).append _).append _
  | metadata => exact ((opens_append ..).append _).append _
  | cancelled => exact (opens_append ..).append _

theorem message_cancelled (repository : String) :
    cancelled.message repository = "Update of " ++ repository ++ " was cancelled" :=
  rfl

theorem getLast?_cancelled (repository : String) :
    (cancelled.message repository).toList.getLast? = some 'd' := by
  rw [message_cancelled, getLast?_toList_append _ (by decide)]
  decide

theorem message_ne_cancelled {f : Failure} (hf : f ≠ .cancelled) (repository : String) :
    f.message repository ≠ cancelled.message repository := by
  cases f with
  | cancelled => exact absurd rfl hf
  | tooManyChanges changed threshold =>
      -- the repository comes first here, so that the two differ only where they end
      intro h
      have hlast := getLast?_cancelled repository
      rw [← h] at hlast
      have hdigits : (s!"{threshold}").toList = digits threshold := Nat.toList_repr
      have hend : (s!"{threshold}").toList.getLast? = some 'd' := by
        rw [← hlast]
        exact (getLast?_toList_append _ (hdigits ▸ digits_ne_nil threshold)).symm
      rw [hdigits] at hend
      exact absurd (isDigit_of_mem_digits (List.mem_of_getLast? hend)) (by decide)
  | _ =>
      apply (opens_opening _ repository).ne (opens_opening .cancelled repository)
      simp only [opening]
      decide

end Failure

namespace Refusal

open Text

theorem message_timeout_ne (repository : String) (limit : Duration) :
    (timeout repository limit).message ≠ Failure.cancelled.message repository := by
  rw [Failure.message_cancelled]
  have hopens : Opens ("Update of " ++ repository ++ " did not finish within ")
      (timeout repository limit).message :=
    ((opens_append ..).append _)
  exact hopens.ne_append (by decide)

theorem message_internal_ne (repository detail : String) :
    (internal repository detail).message ≠ Failure.cancelled.message repository := by
  rw [Failure.message_cancelled]
  have hopens : Opens ("Update of " ++ repository ++ " failed unexpectedly: ")
      (internal repository detail).message :=
    opens_append ..
  exact hopens.ne_append (by decide)

theorem message_inProgress_ne (repository : String) (job : Option String) :
    (inProgress repository job).message ≠ Failure.cancelled.message repository := by
  have hopens : Opens "An update of " (inProgress repository job).message :=
    (opens_append ..).append _
  exact hopens.ne (Failure.opens_opening .cancelled repository) (by decide)

theorem message_rateLimited_ne {repository : String} {retryAfter : Duration} {e : Refusal}
    (h : rateLimited? repository retryAfter = some e) :
    e.message ≠ Failure.cancelled.message repository := by
  obtain ⟨seconds, -, rfl⟩ := Option.map_eq_some_iff.1 h
  intro heq
  have hlast := Failure.getLast?_cancelled repository
  rw [← heq] at hlast
  have hend : (repository ++ " was updated recently").toList.getLast? = some 'd' := hlast
  rw [getLast?_toList_append _ (by decide)] at hend
  exact absurd hend (by decide)

end Refusal

end IndexRefresh
