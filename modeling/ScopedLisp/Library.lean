-- The procedures that every program finds defined, written in the language itself.

namespace ScopedLisp

-- The program that defines them.
def standardLibrary : String :=
"; The standard library.
; Evaluated once, at startup, into the root environment.
; Every session sees these bindings; no session can change them.

(def identity (fn (x) x))

(def inc (fn (n) (+ n 1)))
(def dec (fn (n) (- n 1)))
(def neg (fn (n) (- n)))
(def square (fn (n) (* n n)))

(def abs (fn (n) (if (< n 0) (- n) n)))
(def min (fn (a b) (if (< b a) b a)))
(def max (fn (a b) (if (> b a) b a)))

(def zero (fn (n) (= n 0)))

; Mutually recursive; each finds the other in the root at call time.
(def even (fn (n) (if (zero n) true (odd (dec (abs n))))))
(def odd (fn (n) (if (zero n) false (even (dec (abs n))))))

(def compose (fn (f g) (fn (x) (f (g x)))))
"

end ScopedLisp
