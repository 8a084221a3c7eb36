/-!
# Goal actions

What a goal has been asked for so far, and the switches of a run, are bits of one set: asking for an
installation, for instance, also permits downgrades in the runs that follow.
-/

namespace DepSolver

/-- Kinds of requests and switches of a run, one bit each. -/
structure GoalActions where
  bits : UInt32 := 0
deriving DecidableEq, Repr, Inhabited

namespace GoalActions

def empty : GoalActions := {}

def install : GoalActions := ⟨1⟩

def erase : GoalActions := ⟨2⟩

def upgrade : GoalActions := ⟨4⟩

def upgradeAll : GoalActions := ⟨8⟩

/-- Packages are to be brought in line with the repositories. -/
def distUpgrade : GoalActions := ⟨16⟩

/-- Everything that is installed is to be brought in line with the repositories. -/
def distUpgradeAll : GoalActions := ⟨32⟩

/-- Packages are to be replaced by older ones. -/
def downgrade : GoalActions := ⟨64⟩

/-- Installed packages may be replaced by older ones. -/
def allowDowngrade : GoalActions := ⟨128⟩

/-- Only the best candidates satisfy a request. -/
def forceBest : GoalActions := ⟨256⟩

/-- What is installed has to be consistent. -/
def verify : GoalActions := ⟨512⟩

/-- Optional requests are no longer optional. -/
def ignoreWeak : GoalActions := ⟨1024⟩

/-- Recommendations are not followed. -/
def ignoreWeakDeps : GoalActions := ⟨2048⟩

/-- Installed packages that are not protected may be removed. -/
def allowUninstall : GoalActions := ⟨4096⟩

/-- Every bit with its name, in order. -/
def named : List (GoalActions × String) :=
  [(install, "install"), (erase, "erase"), (upgrade, "upgrade"), (upgradeAll, "upgrade-all"),
   (distUpgrade, "distupgrade"), (distUpgradeAll, "distupgrade-all"), (downgrade, "downgrade"),
   (allowDowngrade, "allow-downgrade"), (forceBest, "force-best"), (verify, "verify"),
   (ignoreWeak, "ignore-weak"), (ignoreWeakDeps, "ignore-weak-deps"),
   (allowUninstall, "allow-uninstall")]

def union (a b : GoalActions) : GoalActions := ⟨a.bits ||| b.bits⟩

instance : OrOp GoalActions := ⟨union⟩

/-- Whether every bit of the second is in the first. -/
def contains (a b : GoalActions) : Bool := a.bits &&& b.bits == b.bits

/-- Whether some bit is in both. -/
def intersects (a b : GoalActions) : Bool := a.bits &&& b.bits != 0

def isEmpty (a : GoalActions) : Bool := a.bits == 0

/-- The names of the bits, in order. -/
def names (a : GoalActions) : List String := (named.filter fun f => a.contains f.1).map (·.2)

def ofName? (name : String) : Option GoalActions :=
  (named.find? fun f => f.2 == name).map (·.1)

def toText (a : GoalActions) : String := "GoalActions(" ++ "|".intercalate a.names ++ ")"

end GoalActions

end DepSolver
