/-
  ClassLint.Catalogue.Utility

  The utilities that every design offers: class names that depend on no scale,
  and the stems that stand before a color name or a spacing step.
-/

import ClassLint.Text

namespace ClassLint.Utility

/-- Class names that depend on no scale. -/
def fixed : List Text :=
  ["container", "sr-only", "not-sr-only", "block", "inline-block", "inline", "flex",
   "inline-flex", "grid", "inline-grid", "table", "table-row", "table-cell", "contents", "hidden",
   "flow-root", "static", "fixed", "absolute", "relative", "sticky", "visible", "invisible",
   "collapse", "flex-row", "flex-row-reverse", "flex-col", "flex-col-reverse", "flex-wrap",
   "flex-wrap-reverse", "flex-nowrap", "flex-1", "flex-auto", "flex-initial", "flex-none", "grow",
   "grow-0", "shrink", "shrink-0", "items-start", "items-end", "items-center", "items-baseline",
   "items-stretch", "justify-start", "justify-end", "justify-center", "justify-between",
   "justify-around", "justify-evenly", "content-center", "content-start", "content-end",
   "content-between", "self-auto", "self-start", "self-end", "self-center", "self-stretch",
   "overflow-auto", "overflow-hidden", "overflow-visible", "overflow-scroll", "overflow-x-auto",
   "overflow-y-auto", "overflow-x-hidden", "overflow-y-hidden", "truncate", "text-ellipsis",
   "text-clip", "whitespace-normal", "whitespace-nowrap", "whitespace-pre", "whitespace-pre-wrap",
   "break-words", "break-all", "text-left", "text-center", "text-right", "text-justify",
   "text-xs", "text-sm", "text-base", "text-lg", "text-xl", "text-2xl", "text-3xl", "text-4xl",
   "text-5xl", "text-6xl", "font-thin", "font-light", "font-normal", "font-medium",
   "font-semibold", "font-bold", "font-extrabold", "font-black", "font-sans", "font-serif",
   "font-mono", "italic", "not-italic", "underline", "line-through", "no-underline", "uppercase",
   "lowercase", "capitalize", "normal-case", "leading-none", "leading-tight", "leading-snug",
   "leading-normal", "leading-relaxed", "leading-loose", "tracking-tighter", "tracking-tight",
   "tracking-normal", "tracking-wide", "tracking-wider", "tracking-widest", "border", "border-0",
   "border-2", "border-4", "border-8", "border-t", "border-r", "border-b", "border-l",
   "border-solid", "border-dashed", "border-dotted", "border-none", "rounded-none", "rounded-sm",
   "rounded", "rounded-md", "rounded-lg", "rounded-xl", "rounded-2xl", "rounded-3xl",
   "rounded-full", "shadow-sm", "shadow", "shadow-md", "shadow-lg", "shadow-xl", "shadow-2xl",
   "shadow-inner", "shadow-none", "ring", "ring-0", "ring-1", "ring-2", "ring-4", "ring-8",
   "ring-inset", "outline-none", "outline", "opacity-0", "opacity-25", "opacity-50", "opacity-75",
   "opacity-100", "transition", "transition-all", "transition-colors", "transition-opacity",
   "transition-shadow", "transition-transform", "transition-none", "duration-75", "duration-100",
   "duration-150", "duration-200", "duration-300", "duration-500", "duration-700",
   "duration-1000", "ease-linear", "ease-in", "ease-out", "ease-in-out", "transform",
   "transform-none", "scale-95", "scale-100", "scale-105", "scale-110", "rotate-45", "rotate-90",
   "rotate-180", "cursor-pointer", "cursor-default", "cursor-not-allowed", "cursor-wait",
   "select-none", "select-text", "select-all", "pointer-events-none", "pointer-events-auto",
   "z-0", "z-10", "z-20", "z-30", "z-40", "z-50", "z-auto", "w-auto", "w-full", "w-screen",
   "w-min", "w-max", "w-fit", "w-1/2", "w-1/3", "w-2/3", "w-1/4", "w-3/4", "h-auto", "h-full",
   "h-screen", "h-min", "h-max", "h-fit", "min-w-0", "min-w-full", "min-h-0", "min-h-full",
   "min-h-screen", "max-w-none", "max-w-xs", "max-w-sm", "max-w-md", "max-w-lg", "max-w-xl",
   "max-w-2xl", "max-w-3xl", "max-w-4xl", "max-w-5xl", "max-w-6xl", "max-w-7xl", "max-w-full",
   "max-w-prose", "max-w-screen-xl", "m-auto", "mx-auto", "my-auto", "ml-auto", "mr-auto",
   "inset-0", "top-0", "right-0", "bottom-0", "left-0", "grid-cols-1", "grid-cols-2",
   "grid-cols-3", "grid-cols-4", "grid-cols-6", "grid-cols-12", "col-span-1", "col-span-2",
   "col-span-3", "col-span-full", "object-contain", "object-cover", "object-fill",
   "object-center", "list-none", "list-disc", "list-decimal", "appearance-none", "resize",
   "resize-none", "antialiased", "subpixel-antialiased", "animate-spin", "animate-ping",
   "animate-pulse", "animate-bounce", "animate-none"].map String.toList

/-- Stems that take a color. -/
def colorStems : List Text :=
  ["bg", "text", "border", "ring", "ring-offset", "outline", "divide", "placeholder", "fill",
   "stroke", "from", "via", "to", "decoration", "accent", "caret", "shadow"].map String.toList

/-- Stems that take a spacing step. -/
def spacingStems : List Text :=
  ["p", "px", "py", "pt", "pr", "pb", "pl", "m", "mx", "my", "mt", "mr", "mb", "ml", "gap",
   "gap-x", "gap-y", "space-x", "space-y", "w", "h", "size", "inset", "top", "right", "bottom",
   "left", "translate-x", "translate-y", "scroll-m", "scroll-p"].map String.toList

/-- Stems that take a spacing step and may stand behind a minus sign. -/
def negatableStems : List Text :=
  ["m", "mx", "my", "mt", "mr", "mb", "ml", "space-x", "space-y", "inset", "top", "right",
   "bottom", "left", "translate-x", "translate-y"].map String.toList

/-- Variants that depend on no screen. -/
def variants : List Text :=
  ["hover", "focus", "focus-within", "focus-visible", "active", "visited", "target", "disabled",
   "enabled", "checked", "indeterminate", "default", "required", "valid", "invalid", "in-range",
   "out-of-range", "placeholder-shown", "autofill", "read-only", "empty", "first", "last", "only",
   "odd", "even", "first-of-type", "last-of-type", "only-of-type", "open", "before", "after",
   "first-letter", "first-line", "marker", "selection", "file", "backdrop", "placeholder", "dark",
   "motion-safe", "motion-reduce", "contrast-more", "contrast-less", "print", "portrait",
   "landscape", "rtl", "ltr"].map String.toList

end ClassLint.Utility
