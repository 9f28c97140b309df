import CoxAgent.Release.Theorems.Version

-- What a release changes in the lock file.

section Spec

end Spec

section Loop

variable {cur next line : String} {lines before : List String} {inPkg : Bool} {i : Nat}

end Loop

section Line

variable {cur next : String} {inPkg : Bool} {P : Prop} {l i w x x' y y' : List Char}

end Line

section Lock

variable {lock cur next : String} {init : List (List Char)} {i : Nat}

end Lock
